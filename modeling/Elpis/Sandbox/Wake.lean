import Elpis.Gateway.Authorize
import Elpis.Lib.JsonNumber
import Elpis.Llm.Stamp
import Elpis.Sandbox.Editor
import Elpis.Sandbox.Metadata

/-!
# The wake of a run

`src/sandbox/wake.ts`: the wake that the arguments of a run ask for, the time it is armed for, and the
payload of the task that keeps it. A payload is read back only where its times are whole numbers. A
delay in words is rounded to whole milliseconds, but a delay that is a number is taken as it is, so
whether such a wake comes back depends on how the sum with the time is rounded.
-/

namespace Elpis.Sandbox.Wake

open Elpis.Js (isSafeInteger Names)
open Elpis.Llm (WakeKind)
open Elpis.RunMetadata (AdviceSource adviceSources wakeKinds)
open Elpis.Sandbox.Editor (trim)
open Elpis.Lib.JsonText hiding isSpace
open Elpis.Lib.Double
open Elpis.Gateway.LlmProxy (jsonParse valueOf membersOf memberOf ownProperties ownOrder put arrayIndex)

def MAX_RUN_WAKE_MS : ℚ := 60 * 60 * 1000
def MAX_RUN_DETAIL_CHARS : ℕ := 120
def MAX_RUN_DETAIL_WORDS : ℕ := 10
def RUN_WAKE_PAYLOAD_TYPE : String := Provenance.TOOL_CONTRACT_VERSION ++ "-wake"

/-- A time as `Date.now()` gives it. -/
structure TimeValue where
  ms : ℤ
  bounded : |ms| ≤ 8640000000000000

/-! ## Durations -/

/-- `\s`. -/
def isBlank (unit : ℕ) : Bool := Js.isSpace (Char.ofNat unit)

def DUR_UNITS : List (Text × ℚ) :=
  [(word "ms", 1), (word "s", 1000), (word "m", 60000), (word "h", 3600000), (word "d", 86400000)]

/-- `/^(\d+(?:\.\d+)?)\s*(ms|s|m|h|d)$/`, and the number of milliseconds by `Math.round`. -/
def durationMs (text : Text) : Option ℤ := do
  let behind ← (digits text).bind fraction
  let unit ← DUR_UNITS.lookup (behind.dropWhile isBlank)
  let number := double (literalValue (text.take (text.length - behind.length)))
  some ⌊double (number * unit) + 1 / 2⌋

/-- `parseDuration` of `src/config.ts`. -/
def parseDuration (v : Tree) (dotted file : String) : Except Text ℚ :=
  let refused := word file ++ word ": key `" ++ word dotted ++
    word "` must be a duration like \"30s\", \"2h\", \"14d\" (or a number of milliseconds)"
  match v with
  | .num n => if isFinite n.value = true then .ok n.value else .error refused
  | .str s =>
      match durationMs (trim s) with
      | some ms => .ok ms
      | none => .error refused
  | _ => .error refused

/-! ## Timestamps -/

/-- Behind this many digits. -/
def exactly (n : ℕ) (text : Text) : Option Text :=
  if n ≤ text.length ∧ (text.take n).all isDigit = true then some (text.drop n) else none

/-- `\d{2}:\d{2}`. -/
def clock (text : Text) : Option Text := do exactly 2 (← after ':'.toNat (← exactly 2 text))

/-- `(?:\.\d{1,3})?`. -/
def milliseconds (text : Text) : Option Text :=
  match after '.'.toNat text with
  | some behind =>
      let n := (behind.takeWhile isDigit).length
      if 1 ≤ n ∧ n ≤ 3 then some (behind.drop n) else none
  | none => some text

/-- `(?::\d{2}(?:\.\d{1,3})?)?`. -/
def seconds (text : Text) : Option Text :=
  match after ':'.toNat text with
  | some behind => (exactly 2 behind).bind milliseconds
  | none => some text

/-- `(?:Z|[+-]\d{2}:\d{2})$`. -/
def isZone : Text → Bool
  | [] => false
  | c :: text => decide (c = 'Z'.toNat ∧ text = [] ∨ (c = '+'.toNat ∨ c = '-'.toNat) ∧ clock text = some [])

/-- `/^\d{4}-\d{2}-\d{2}T\d{2}:\d{2}(?::\d{2}(?:\.\d{1,3})?)?(?:Z|[+-]\d{2}:\d{2})$/`. -/
def isTimestamp (text : Text) : Bool :=
  Option.any isZone (do
    let month ← after '-'.toNat (← exactly 4 text)
    let day ← after '-'.toNat (← exactly 2 month)
    let time ← after 'T'.toNat (← exactly 2 day)
    seconds (← clock time))

/-! ## The arguments of a run -/

/-- A wake at a time. -/
inductive TimedWake where
  | after (delayMs : ℚ)
  | «at» (targetAt : ℤ)
deriving DecidableEq

inductive ParsedRunWake where
  | timed (wake : TimedWake)
  | auto
deriving DecidableEq

structure ResolvedRunWake where
  armAt : Option ℚ
  elapsed : Bool

structure ParsedRunCall where
  code : Text
  detail : Text
  sandbox : Option Text
  wake : Option ParsedRunWake
deriving DecidableEq

section Arguments
-- `Date.parse`, with nothing where the result is not finite
variable (dateParse : Text → Option ℤ)

/-- `parseRunWake` of `after`. -/
def parseAfter (value : Tree) : Except Text ParsedRunWake := do
  let delayMs ← parseDuration value "wake.after" "run"
  if ¬isFinite delayMs = true ∨ delayMs ≤ 0 then .error (word "run wake.after must be greater than zero")
  else if MAX_RUN_WAKE_MS < delayMs then .error (word "run wake.after must be at most 1h")
  else .ok (.timed (.after delayMs))

/-- `parseRunWake` of `at`. -/
def parseAt (value : Tree) (dispatchAt : TimeValue) : Except Text ParsedRunWake :=
  match value with
  | .str s =>
      if isTimestamp s = true then
        match dateParse s with
        | some targetAt =>
            if targetAt - dispatchAt.ms ≤ 0 then .error (word "run wake.at must be strictly in the future")
            else if MAX_RUN_WAKE_MS < targetAt - dispatchAt.ms then
              .error (word "run wake.at must be at most 1h from dispatch")
            else .ok (.timed (.at targetAt))
        | none => .error (word "run wake.at must be a valid ISO-8601 timestamp")
      else .error (word "run wake.at must be an ISO-8601 timestamp with timezone")
  | _ => .error (word "run wake.at must be an ISO-8601 timestamp with timezone")

/-- `parseRunWake` of `auto`. -/
def parseAuto (value : Tree) : Except Text ParsedRunWake :=
  match value with
  | .bool true => .ok .auto
  | _ => .error (word "run wake.auto must be exactly true")

def parseRunWake (value : Tree) (dispatchAt : TimeValue) : Except Text ParsedRunWake :=
  match value with
  | .obj [(key, value)] =>
      if key = word "auto" then parseAuto value
      else if key = word "after" then parseAfter value
      else if key = word "at" then parseAt dateParse value dispatchAt
      else .error (word "run wake must contain exactly one key: after, at, or auto")
  | .obj _ => .error (word "run wake must contain exactly one key: after, at, or auto")
  | _ =>
      .error (word "run wake must be exactly \x7b after: <duration> \x7d, \x7b at: <ISO timestamp> \x7d, or \x7b auto: true \x7d")

/-- The runs of white space that `split(/\s+/)` cuts at. -/
def blankRuns : Bool → Text → ℕ
  | _, [] => 0
  | inRun, c :: text => if isBlank c then (if inRun then 0 else 1) + blankRuns true text else blankRuns false text

def parseCode (value : Option Tree) : Except Text Text :=
  match value with
  | some (.str code) => .ok code
  | _ => .error (word "run.code must be a string")

def parseDetail (value : Option Tree) : Except Text Text :=
  match value with
  | some (.str s) =>
      let detail := trim s
      if detail = [] then .error (word "run.detail must not be empty")
      else if '\r'.toNat ∈ detail ∨ '\n'.toNat ∈ detail then .error (word "run.detail must be a single line")
      else if MAX_RUN_DETAIL_CHARS < detail.length then
        .error (word ("run.detail must be at most " ++ toString MAX_RUN_DETAIL_CHARS ++ " characters"))
      else if MAX_RUN_DETAIL_WORDS < blankRuns false detail + 1 then
        .error (word ("run.detail must be at most " ++ toString MAX_RUN_DETAIL_WORDS ++ " words"))
      else .ok detail
  | _ => .error (word "run.detail must be a string")

def parseSandbox (value : Option Tree) : Except Text (Option Text) :=
  let refused := word "run.sandbox must be a non-empty Mind id, unique prefix, or exact title"
  match value with
  | none => .ok none
  | some (.str sandbox) => if trim sandbox = [] then .error refused else .ok (some sandbox)
  | some _ => .error refused

def parseWake (value : Option Tree) (dispatchAt : TimeValue) : Except Text (Option ParsedRunWake) :=
  match value with
  | none => .ok none
  | some value => (parseRunWake dateParse value dispatchAt).map some

instance lawfulBEq_text : LawfulBEq Text := inferInstance

def allowed : List Text := [word "code", word "detail", word "sandbox", word "wake"]

def unsupported (extra : List Text) : Text :=
  word "run arguments contain unsupported key" ++ (if extra.length = 1 then [] else word "s") ++ word ": " ++
    List.intercalate (word ", ") extra

/-- `raw || '{}'`. -/
def orEmpty (raw : Text) : Text := if raw = [] then word "\x7b\x7d" else raw

def parseRunCallArguments (raw : Text) (dispatchAt : TimeValue) : Except Text ParsedRunCall :=
  match jsonParse (orEmpty raw) with
  | none => .error (word "run arguments must be valid JSON")
  | some (.obj record) =>
      let extra := (record.map Prod.fst).filter (fun key => decide (key ∉ allowed))
      if extra ≠ [] then .error (unsupported extra)
      else do
        let code ← parseCode (record.lookup (word "code"))
        let detail ← parseDetail (record.lookup (word "detail"))
        let sandbox ← parseSandbox (record.lookup (word "sandbox"))
        let wake ← parseWake dateParse (record.lookup (word "wake")) dispatchAt
        .ok { code, detail, sandbox, wake }
  | some _ => .error (word "run arguments must be an object")

end Arguments

def resolveRunWake (wake : TimedWake) (completedAt : TimeValue) : ResolvedRunWake :=
  match wake with
  | .after delayMs => ⟨some (double (completedAt.ms + delayMs)), false⟩
  | .at targetAt => if targetAt ≤ completedAt.ms then ⟨none, true⟩ else ⟨some targetAt, false⟩

/-! ## The payload of the task -/

inductive PayloadState where
  | armed | preempted | fired
deriving DecidableEq, Repr

def payloadStates : Names PayloadState where
  all := [.armed, .preempted, .fired]
  text
    | .armed => "armed"
    | .preempted => "preempted"
    | .fired => "fired"
  found a := by cases a <;> decide

@[ext] structure PayloadAdvice where
  source : AdviceSource
  delayMs : ℚ
  reason : Text
deriving DecidableEq

@[ext] structure DurableRunWakePayload where
  kind : WakeKind
  state : PayloadState
  requestedAt : ℚ
  targetAt : ℚ
  advice : Option PayloadAdvice
deriving DecidableEq

section Payload
-- how `JSON.stringify` writes a number that is not whole
variable (other : ℚ → NumberLiteral)

def PayloadAdvice.members (a : PayloadAdvice) : List (Text × Tree) :=
  [(word "source", .str (word (adviceSources.text a.source))), (word "delayMs", .num (numeral other a.delayMs)),
    (word "reason", .str a.reason)]

def DurableRunWakePayload.members (p : DurableRunWakePayload) : List (Text × Tree) :=
  [(word "type", .str (word RUN_WAKE_PAYLOAD_TYPE)), (word "kind", .str (word (wakeKinds.text p.kind))),
    (word "state", .str (word (payloadStates.text p.state))),
    (word "requestedAt", .num (numeral other p.requestedAt)), (word "targetAt", .num (numeral other p.targetAt))] ++
    (p.advice.map (fun a => (word "advice", Tree.obj (a.members other)))).toList

def encodeRunWakePayload (payload : DurableRunWakePayload) : Text := print some (.obj (payload.members other))

end Payload

def readText : Option Tree → Option Text
  | some (.str s) => some s
  | _ => none

def readNumber : Option Tree → Option ℚ
  | some (.num n) => some n.value
  | _ => none

def readObject : Option Tree → Option (List (Text × Tree))
  | some (.obj ms) => some ms
  | _ => none

/-- The value of this name. -/
def readName {α : Type} (names : Names α) (value : Option Tree) : Option α :=
  (readText value).bind (fun s => names.all.find? (fun a => decide (word (names.text a) = s)))

def readSafeInteger (value : Option Tree) : Option ℚ := (readNumber value).filter isSafeInteger

def isAdviceDelay (q : ℚ) : Bool := isSafeInteger q && decide (0 ≤ q) && decide (q ≤ MAX_RUN_WAKE_MS)

def isAdviceReason (reason : Text) : Bool := decide (0 < reason.length) && decide (reason.length ≤ 64)

def parsePayloadAdvice (advice : List (Text × Tree)) : Option PayloadAdvice := do
  let source ← readName adviceSources (advice.lookup (word "source"))
  let delayMs ← (readNumber (advice.lookup (word "delayMs"))).filter isAdviceDelay
  let reason ← (readText (advice.lookup (word "reason"))).filter isAdviceReason
  some { source, delayMs, reason }

/-- `parseRunWakePayload` of an object. An advice that does not pass is left out. -/
def parsePayloadMembers (value : List (Text × Tree)) : Option DurableRunWakePayload := do
  guard (readText (value.lookup (word "type")) = some (word RUN_WAKE_PAYLOAD_TYPE))
  let kind ← readName wakeKinds (value.lookup (word "kind"))
  let state ← readName payloadStates (value.lookup (word "state"))
  let requestedAt ← readSafeInteger (value.lookup (word "requestedAt"))
  let targetAt ← readSafeInteger (value.lookup (word "targetAt"))
  let advice := (readObject (value.lookup (word "advice"))).bind parsePayloadAdvice
  some { kind, state, requestedAt, targetAt, advice }

def parseRunWakePayload (raw : Text) : Option DurableRunWakePayload :=
  (readObject (jsonParse raw)).bind parsePayloadMembers

/-! ## What is armed -/

/-- `WAKE_ADVISOR_BUCKETS_MS` of `src/sandbox/wake-advisor.ts`. -/
def WAKE_ADVISOR_BUCKETS_MS : List ℕ := [0, 1, 2, 5, 10, 15, 30, 45, 60].map (· * 60000)

inductive WakeAdviceReason where
  | activeWork | backgroundWait | socialFollowUp | scheduledSoon | quietExploration
deriving DecidableEq, Repr

def WakeAdviceReason.text : WakeAdviceReason → String
  | .activeWork => "active-work"
  | .backgroundWait => "background-wait"
  | .socialFollowUp => "social-follow-up"
  | .scheduledSoon => "scheduled-soon"
  | .quietExploration => "quiet-exploration"

/-- What `adviseWake` answers: one of the delays it offers. -/
structure WakeAdvice where
  delayMs : ℕ
  bucket : delayMs ∈ WAKE_ADVISOR_BUCKETS_MS
  reason : WakeAdviceReason
  source : AdviceSource

def TimedWake.kind : TimedWake → WakeKind
  | .after _ => .after
  | .at _ => .at

/-- The payload that `armRunWake` in `src/agent.ts` writes, unless the time has passed. -/
def ParsedRunWake.armed (wake : ParsedRunWake) (requestedAt completedAt : TimeValue) (advice : WakeAdvice) :
    Option DurableRunWakePayload :=
  match wake with
  | .timed wake => (resolveRunWake wake completedAt).armAt.map (fun targetAt =>
      { kind := wake.kind, state := .armed, requestedAt := requestedAt.ms, targetAt, advice := none })
  | .auto => some
      { kind := .auto, state := .armed, requestedAt := requestedAt.ms
        targetAt := double (completedAt.ms + advice.delayMs)
        advice := some ⟨advice.source, advice.delayMs, word advice.reason.text⟩ }

/-! ## What is accepted -/

section Accepted
variable {dateParse : Text → Option ℤ} {value : Tree} {raw : Text} {dispatchAt : TimeValue} {wake : ParsedRunWake}
  {call : ParsedRunCall}

theorem except_bind_ok {ε α β : Type} {x : Except ε α} {f : α → Except ε β} {b : β} (h : x >>= f = .ok b) :
    ∃ a, x = .ok a ∧ f a = .ok b := by
  cases x with
  | error e => cases h
  | ok a => exact ⟨a, rfl, h⟩

theorem parseAfter_ok (h : parseAfter value = .ok wake) : ∃ delayMs, wake = .timed (.after delayMs) ∧
    parseDuration value "wake.after" "run" = .ok delayMs ∧ 0 < delayMs ∧ delayMs ≤ MAX_RUN_WAKE_MS := by
  obtain ⟨delayMs, hduration, h⟩ := except_bind_ok h
  split at h
  · cases h
  · rename_i hpos
    rw [not_or, not_le] at hpos
    split at h
    · cases h
    · rename_i hmax
      cases h
      exact ⟨delayMs, rfl, hduration, hpos.2, not_lt.mp hmax⟩

theorem parseAt_ok (h : parseAt dateParse value dispatchAt = .ok wake) : ∃ targetAt, wake = .timed (.at targetAt) ∧
    0 < targetAt - dispatchAt.ms ∧ (targetAt - dispatchAt.ms : ℚ) ≤ MAX_RUN_WAKE_MS := by
  unfold parseAt at h
  split at h
  · split at h
    · split at h
      · rename_i targetAt _
        split at h
        · cases h
        · rename_i hfuture
          split at h
          · cases h
          · rename_i hmax
            cases h
            exact ⟨targetAt, rfl, not_le.mp hfuture, not_lt.mp hmax⟩
      · cases h
    · cases h
  · cases h

theorem parseAuto_ok (h : parseAuto value = .ok wake) : wake = .auto := by
  unfold parseAuto at h
  split at h
  · cases h
    rfl
  · cases h

/-- A wake is asked for in one of three ways. -/
theorem parseRunWake_ok (h : parseRunWake dateParse value dispatchAt = .ok wake) : ∃ key x, value = .obj [(key, x)] ∧
    (key = word "auto" ∧ parseAuto x = .ok wake ∨ key = word "after" ∧ parseAfter x = .ok wake ∨
      key = word "at" ∧ parseAt dateParse x dispatchAt = .ok wake) := by
  unfold parseRunWake at h
  split at h
  · rename_i key x
    refine ⟨key, x, rfl, ?_⟩
    split at h
    · exact .inl ⟨‹_›, h⟩
    · split at h
      · exact .inr (.inl ⟨‹_›, h⟩)
      · split at h
        · exact .inr (.inr ⟨‹_›, h⟩)
        · cases h
  · cases h
  · cases h

theorem parseRunCallArguments_ok (h : parseRunCallArguments dateParse raw dispatchAt = .ok call) :
    ∃ record, jsonParse (orEmpty raw) = some (.obj record) ∧
      parseWake dateParse (record.lookup (word "wake")) dispatchAt = .ok call.wake := by
  unfold parseRunCallArguments at h
  split at h
  · cases h
  · rename_i record hrecord
    simp only at h
    split at h
    · cases h
    · obtain ⟨code, -, h⟩ := except_bind_ok h
      obtain ⟨detail, -, h⟩ := except_bind_ok h
      obtain ⟨sandbox, -, h⟩ := except_bind_ok h
      obtain ⟨wake, hwake, h⟩ := except_bind_ok h
      cases h
      exact ⟨record, hrecord, hwake⟩
  · cases h

end Accepted

/-! ## The payload comes back -/

@[mk_iff] structure PayloadAdvice.Valid (a : PayloadAdvice) : Prop where
  delayMs : isAdviceDelay a.delayMs = true
  reason : isAdviceReason a.reason = true

/-- The times are whole, and the advice is within its bounds. -/
@[mk_iff] structure DurableRunWakePayload.Valid (p : DurableRunWakePayload) : Prop where
  requestedAt : isSafeInteger p.requestedAt = true
  targetAt : isSafeInteger p.targetAt = true
  advice : ∀ a ∈ p.advice, a.Valid

theorem isSafeInteger_iff (q : ℚ) : isSafeInteger q = true ↔ ∃ n : ℤ, q = n ∧ |n| ≤ 9007199254740991 := by
  simp only [isSafeInteger, Bool.and_eq_true, decide_eq_true_eq, and_assoc]
  constructor
  · rintro ⟨hden, hlow, hhigh⟩
    have hq : q = q.num := (Rat.den_eq_one_iff q).mp hden |>.symm
    refine ⟨q.num, hq, abs_le.mpr ⟨?_, ?_⟩⟩
    · rw [hq] at hlow
      exact_mod_cast hlow
    · rw [hq] at hhigh
      exact_mod_cast hhigh
  · rintro ⟨n, rfl, hn⟩
    rw [abs_le] at hn
    refine ⟨Rat.den_intCast n, ?_, ?_⟩
    · exact_mod_cast hn.1
    · exact_mod_cast hn.2

theorem word_injective {s t : String} (h : word s = word t) : s = t := by
  have hchars : Function.Injective Char.toNat := fun a b h => Char.toNat_inj.mp h
  exact String.toList_injective (List.map_injective_iff.mpr hchars h)

@[simp] theorem word_beq (s t : String) : (word s == word t) = (s == t) := by
  rw [Bool.eq_iff_iff, beq_iff_eq, beq_iff_eq]
  exact ⟨word_injective, congrArg word⟩

@[simp] theorem readName_text {α : Type} (names : Names α) (a : α) :
    readName names (some (.str (word (names.text a)))) = some a := by
  rw [readName, readText, Option.bind_some, ← names.found a]
  congr 1
  funext b
  rw [decide_eq_decide]
  exact ⟨word_injective, congrArg word⟩

section Objects
variable {ms : List (Text × Tree)}

theorem foldl_put (sofar : List (Text × Tree)) (h : ((sofar ++ ms).map Prod.fst).Nodup) :
    ms.foldl put sofar = sofar ++ ms := by
  induction ms generalizing sofar with
  | nil => rw [List.foldl_nil, List.append_nil]
  | cons m ms ih =>
      have hfresh : m.1 ∉ sofar.map Prod.fst := by
        rw [List.map_append, List.nodup_append] at h
        intro hm
        exact h.2.2 _ hm _ (by simp) rfl
      rw [List.append_cons] at h ⊢
      rw [List.foldl_cons, put, if_neg hfresh, ih _ h]

/-- Keys that are no indices and not repeated stay in their order. -/
theorem ownProperties_eq (names : List String) (hkeys : (ms.map Prod.fst).Sublist (names.map word)) (h : names.Nodup)
    (hindex : ∀ name ∈ names, arrayIndex (word name) = none) : ownProperties ms = ms := by
  have hnodup : (ms.map Prod.fst).Nodup := hkeys.nodup (h.map (fun _ _ => word_injective))
  have hnoIndex : ∀ m ∈ ms, arrayIndex m.1 = none := by
    intro m hm
    obtain ⟨name, hname, heq⟩ := List.mem_map.mp (hkeys.subset (List.mem_map_of_mem hm))
    rw [← heq]
    exact hindex name hname
  have hnone : ms.filter (fun m => (arrayIndex m.1).isSome) = [] := by
    rw [List.filter_eq_nil_iff]
    intro m hm
    rw [hnoIndex m hm]
    exact Bool.false_ne_true
  have hall : ms.filter (fun m => !(arrayIndex m.1).isSome) = ms := by
    rw [List.filter_eq_self]
    intro m hm
    rw [hnoIndex m hm]
    rfl
  rw [ownProperties, foldl_put [] hnodup, List.nil_append, ownOrder, hnone, hall, List.mergeSort_nil, List.nil_append]

end Objects

section Payload
variable (other : ℚ → NumberLiteral)

theorem value_numeral_safe {q : ℚ} (h : isSafeInteger q = true) : (numeral other q).value = q := by
  obtain ⟨n, rfl, hn⟩ := (isSafeInteger_iff q).mp h
  exact value_numeral other (by omega)

theorem valueOf_str (text : Text) : valueOf (.str text) = .str text := by rw [valueOf]

theorem valueOf_num (n : NumberLiteral) : valueOf (.num n) = .num n := by rw [valueOf]

def adviceKeys : List String := ["source", "delayMs", "reason"]

def payloadKeys : List String := ["type", "kind", "state", "requestedAt", "targetAt", "advice"]

theorem valueOf_advice (a : PayloadAdvice) : valueOf (.obj (a.members other)) = .obj (a.members other) := by
  have hmembers : membersOf (a.members other) = a.members other := by
    simp only [PayloadAdvice.members, membersOf, memberOf, valueOf_str, valueOf_num]
  have hkeys : ((a.members other).map Prod.fst).Sublist (adviceKeys.map word) :=
    List.Sublist.refl (adviceKeys.map word)
  rw [valueOf, hmembers, ownProperties_eq adviceKeys hkeys (by decide) (by decide)]

theorem payload_keys (p : DurableRunWakePayload) : ((p.members other).map Prod.fst).Sublist (payloadKeys.map word) := by
  cases hadvice : p.advice with
  | none =>
      simp only [DurableRunWakePayload.members, hadvice]
      exact List.sublist_append_left (payloadKeys.take 5 |>.map word) [word "advice"]
  | some a =>
      simp only [DurableRunWakePayload.members, hadvice]
      exact List.Sublist.refl (payloadKeys.map word)

theorem jsonParse_encode (p : DurableRunWakePayload) :
    jsonParse (encodeRunWakePayload other p) = some (.obj (p.members other)) := by
  have hmembers : membersOf (p.members other) = p.members other := by
    cases hadvice : p.advice with
    | none =>
        simp only [DurableRunWakePayload.members, hadvice, Option.map_none, Option.toList_none, List.append_nil, membersOf,
          memberOf, valueOf_str, valueOf_num]
    | some a =>
        simp only [DurableRunWakePayload.members, hadvice, Option.map_some, Option.toList_some, List.cons_append,
          List.nil_append, membersOf, memberOf, valueOf_str, valueOf_num, valueOf_advice]
  rw [jsonParse, encodeRunWakePayload, parse_print, Option.map_some, valueOf, hmembers,
    ownProperties_eq payloadKeys (payload_keys other p) (by decide) (by decide)]

theorem parsePayloadAdvice_valid {ms : List (Text × Tree)} {a : PayloadAdvice} (h : parsePayloadAdvice ms = some a) :
    a.Valid := by
  obtain ⟨source, -, h⟩ := Option.bind_eq_some_iff.mp h
  obtain ⟨delayMs, hdelay, h⟩ := Option.bind_eq_some_iff.mp h
  obtain ⟨reason, hreason, h⟩ := Option.bind_eq_some_iff.mp h
  cases h
  exact ⟨(Option.filter_eq_some_iff.mp hdelay).2, (Option.filter_eq_some_iff.mp hreason).2⟩

/-- What is read is within the bounds. -/
theorem parseRunWakePayload_valid {raw : Text} {p : DurableRunWakePayload} (h : parseRunWakePayload raw = some p) :
    p.Valid := by
  obtain ⟨value, -, h⟩ := Option.bind_eq_some_iff.mp h
  obtain ⟨-, -, h⟩ := Option.bind_eq_some_iff.mp h
  obtain ⟨kind, -, h⟩ := Option.bind_eq_some_iff.mp h
  obtain ⟨state, -, h⟩ := Option.bind_eq_some_iff.mp h
  obtain ⟨requestedAt, hrequested, h⟩ := Option.bind_eq_some_iff.mp h
  obtain ⟨targetAt, htarget, h⟩ := Option.bind_eq_some_iff.mp h
  cases h
  refine ⟨(Option.filter_eq_some_iff.mp hrequested).2, (Option.filter_eq_some_iff.mp htarget).2, ?_⟩
  intro a ha
  obtain ⟨ms, -, ha⟩ := Option.bind_eq_some_iff.mp ha
  exact parsePayloadAdvice_valid ha

theorem parsePayloadAdvice_members {a : PayloadAdvice} (h : a.Valid) : parsePayloadAdvice (a.members other) = some a := by
  have hdelay := h.delayMs
  rw [isAdviceDelay, Bool.and_eq_true, Bool.and_eq_true] at hdelay
  simp [parsePayloadAdvice, PayloadAdvice.members, List.lookup, readNumber, readText, value_numeral_safe other hdelay.1.1,
    Option.filter_some, h.delayMs, h.reason]

theorem lookup_advice (p : DurableRunWakePayload) :
    (p.members other).lookup (word "advice") = p.advice.map (fun a => .obj (a.members other)) := by
  cases hadvice : p.advice with
  | none => simp [DurableRunWakePayload.members, hadvice, List.lookup]
  | some a => simp [DurableRunWakePayload.members, hadvice, List.lookup]

theorem parsePayloadMembers_members {p : DurableRunWakePayload} (h : p.Valid) :
    parsePayloadMembers (p.members other) = some p := by
  have hadvice : (readObject ((p.members other).lookup (word "advice"))).bind parsePayloadAdvice = p.advice := by
    rw [lookup_advice]
    cases hp : p.advice with
    | none => rfl
    | some a => exact parsePayloadAdvice_members other (h.advice a hp)
  rw [parsePayloadMembers, hadvice]
  simp [DurableRunWakePayload.members, List.lookup, readSafeInteger, readNumber, readText,
    value_numeral_safe other h.requestedAt, value_numeral_safe other h.targetAt, Option.filter_some, h.requestedAt,
    h.targetAt]

/-- A payload comes back as it was where it is within the bounds. -/
theorem payload_comes_back_iff (p : DurableRunWakePayload) :
    parseRunWakePayload (encodeRunWakePayload other p) = some p ↔ p.Valid := by
  constructor
  · exact parseRunWakePayload_valid
  · intro h
    rw [parseRunWakePayload, jsonParse_encode]
    exact parsePayloadMembers_members other h

end Payload

/-! ## The wake comes back -/

/-- The sum is rounded to a whole number: it is no further away from one than half a unit in the last
place. -/
def WholeSum (completedAt : TimeValue) (delayMs : ℚ) : Prop :=
  ∃ n : ℤ, |completedAt.ms + delayMs - n| ≤ ulp (completedAt.ms + delayMs) / 2

/-- The delay that a wake asks for as a number. -/
def askedDelay (wake : Option Tree) : Option ℚ := (readObject wake).bind (fun ms => readNumber (ms.lookup (word "after")))

/-- The delay that the arguments of a run ask for as a number. -/
def askedArguments (raw : Text) : Option ℚ :=
  (readObject (jsonParse (orEmpty raw))).bind (fun record => askedDelay (record.lookup (word "wake")))

/-- What is armed for the wake of a call comes back from its text. -/
def ParsedRunCall.ComesBack (other : ℚ → NumberLiteral) (call : ParsedRunCall) (dispatchAt completedAt : TimeValue)
    (advice : WakeAdvice) : Prop :=
  ∀ wake ∈ call.wake, ∀ p ∈ wake.armed dispatchAt completedAt advice,
    parseRunWakePayload (encodeRunWakePayload other p) = some p

theorem wholeSum_whole (completedAt : TimeValue) (delayMs : ℤ) : WholeSum completedAt delayMs := by
  refine ⟨completedAt.ms + delayMs, ?_⟩
  rw [Int.cast_add, sub_self, abs_zero]
  exact (half_pos (ulp_pos _)).le

theorem isSafeInteger_time (t : TimeValue) : isSafeInteger t.ms = true :=
  (isSafeInteger_iff _).mpr ⟨t.ms, rfl, t.bounded.trans (by decide)⟩

theorem isSafeInteger_double_iff {q : ℚ} (h : |q| ≤ 8640000003600000) :
    isSafeInteger (double q) = true ↔ ∃ n : ℤ, |q - n| ≤ ulp q / 2 := by
  rw [isSafeInteger_iff, ← double_whole_iff]
  constructor
  · rintro ⟨n, hn, -⟩
    exact ⟨n, hn⟩
  · rintro ⟨n, hn⟩
    refine ⟨n, hn, ?_⟩
    have hulp : ulp q ≤ 1 := ulp_le_one (h.trans_lt (by norm_num))
    have hnear := abs_double_sub_le q
    rw [hn] at hnear
    have hbound : |(n : ℚ)| ≤ 8640000003600001 := by
      have htriangle := abs_sub_abs_le_abs_sub (n : ℚ) q
      linarith
    have hcast : |n| ≤ 8640000003600001 := by exact_mod_cast hbound
    omega

theorem max_eq : MAX_RUN_WAKE_MS = 3600000 := by norm_num [MAX_RUN_WAKE_MS]

theorem abs_sum_le {c : TimeValue} {d : ℚ} (hd : 0 ≤ d) (hmax : d ≤ MAX_RUN_WAKE_MS) :
    |c.ms + d| ≤ 8640000003600000 := by
  have hc : |(c.ms : ℚ)| ≤ 8640000000000000 := by exact_mod_cast c.bounded
  have hsum := abs_add_le (c.ms : ℚ) d
  rw [abs_of_nonneg hd] at hsum
  rw [max_eq] at hmax
  linarith

theorem bucket_le (advice : WakeAdvice) : advice.delayMs ≤ 3600000 := by
  have hbuckets : ∀ ms ∈ WAKE_ADVISOR_BUCKETS_MS, ms ≤ 3600000 := by decide
  exact hbuckets _ advice.bucket

theorem bucket_le_max (advice : WakeAdvice) : (advice.delayMs : ℚ) ≤ MAX_RUN_WAKE_MS := by
  rw [max_eq]
  exact_mod_cast bucket_le advice

theorem isAdviceReason_text (reason : WakeAdviceReason) : isAdviceReason (word reason.text) = true := by
  cases reason <;> decide

/-- An advice of the advisor is within its bounds. -/
theorem advice_valid (advice : WakeAdvice) :
    PayloadAdvice.Valid ⟨advice.source, advice.delayMs, word advice.reason.text⟩ where
  delayMs := by
    have hle := bucket_le advice
    have hwhole : isSafeInteger (advice.delayMs : ℚ) = true := by
      refine (isSafeInteger_iff _).mpr ⟨advice.delayMs, rfl, ?_⟩
      rw [abs_of_nonneg (by positivity)]
      omega
    simp [isAdviceDelay, hwhole, bucket_le_max advice]
  reason := isAdviceReason_text advice.reason

section Armed
variable {dispatchAt : TimeValue} (completedAt : TimeValue) (advice : WakeAdvice)

theorem valid_after_iff {delayMs : ℚ} (hpos : 0 < delayMs) (hmax : delayMs ≤ MAX_RUN_WAKE_MS) :
    (∀ p ∈ ParsedRunWake.armed (.timed (.after delayMs)) dispatchAt completedAt advice, p.Valid) ↔
      WholeSum completedAt delayMs := by
  rw [WholeSum, ← isSafeInteger_double_iff (abs_sum_le hpos.le hmax)]
  simp [ParsedRunWake.armed, resolveRunWake, DurableRunWakePayload.valid_iff, isSafeInteger_time]

theorem valid_at {targetAt : ℤ} (hpos : 0 < targetAt - dispatchAt.ms)
    (hmax : (targetAt - dispatchAt.ms : ℚ) ≤ MAX_RUN_WAKE_MS) :
    ∀ p ∈ ParsedRunWake.armed (.timed (.at targetAt)) dispatchAt completedAt advice, p.Valid := by
  have hbounded := abs_le.mp dispatchAt.bounded
  have htarget : |targetAt| ≤ 9007199254740991 := by
    rw [max_eq] at hmax
    have hcast : targetAt - dispatchAt.ms ≤ 3600000 := by exact_mod_cast hmax
    rw [abs_le]
    omega
  intro p hp
  obtain ⟨armAt, harm, rfl⟩ := Option.map_eq_some_iff.mp hp
  rw [resolveRunWake] at harm
  split at harm
  · cases harm
  · cases harm
    exact ⟨isSafeInteger_time dispatchAt, (isSafeInteger_iff _).mpr ⟨targetAt, rfl, htarget⟩, by simp⟩

theorem valid_auto : ∀ p ∈ ParsedRunWake.armed .auto dispatchAt completedAt advice, p.Valid := by
  have hsafe := isSafeInteger_double_iff (abs_sum_le (c := completedAt) (Nat.cast_nonneg advice.delayMs)
    (bucket_le_max advice))
  rintro p ⟨rfl⟩
  refine ⟨isSafeInteger_time dispatchAt, hsafe.mpr (wholeSum_whole completedAt advice.delayMs), ?_⟩
  rintro a ⟨rfl⟩
  exact advice_valid advice

theorem askedDelay_single (key : Text) (x : Tree) :
    askedDelay (some (.obj [(key, x)])) = if key = word "after" then readNumber (some x) else none := by
  rw [askedDelay, readObject, Option.bind_some, List.lookup_cons, List.lookup_nil, Bool.beq_comm]
  by_cases hkey : key = word "after"
  · simp [hkey]
  · simp [hkey, readNumber, beq_false_of_ne]

/-- A delay is the number that is asked for, or it is whole. -/
theorem parseDuration_cases {x : Tree} {dotted file : String} {delayMs : ℚ}
    (h : parseDuration x dotted file = .ok delayMs) :
    readNumber (some x) = some delayMs ∨ readNumber (some x) = none ∧ ∃ n : ℤ, delayMs = n := by
  unfold parseDuration at h
  split at h
  · split at h
    · cases h
      exact .inl rfl
    · cases h
  · split at h
    · rename_i ms _
      cases h
      exact .inr ⟨rfl, ms, rfl⟩
    · cases h
  · cases h

/-- Only a delay that is a number is added as it is. -/
theorem valid_armed_iff {dateParse : Text → Option ℤ} {value : Tree} {wake : ParsedRunWake}
    (h : parseRunWake dateParse value dispatchAt = .ok wake) :
    (∀ p ∈ wake.armed dispatchAt completedAt advice, p.Valid) ↔
      ∀ delayMs ∈ askedDelay (some value), WholeSum completedAt delayMs := by
  obtain ⟨key, x, rfl, ⟨hkey, h⟩ | ⟨hkey, h⟩ | ⟨hkey, h⟩⟩ := parseRunWake_ok h
  · rw [parseAuto_ok h, askedDelay_single, if_neg (by rw [hkey]; decide)]
    exact iff_of_true (valid_auto completedAt advice) (by simp)
  · obtain ⟨delayMs, rfl, hduration, hpos, hmax⟩ := parseAfter_ok h
    rw [askedDelay_single, if_pos hkey, valid_after_iff completedAt advice hpos hmax]
    rcases parseDuration_cases hduration with hnumber | ⟨hnone, n, rfl⟩
    · simp [hnumber]
    · exact iff_of_true (wholeSum_whole completedAt n) (by simp [hnone])
  · obtain ⟨targetAt, rfl, hpos, hmax⟩ := parseAt_ok h
    rw [askedDelay_single, if_neg (by rw [hkey]; decide)]
    exact iff_of_true (valid_at completedAt advice hpos hmax) (by simp)

end Armed

section Kept
variable (other : ℚ → NumberLiteral) (dateParse : Text → Option ℤ)

/-- **The round trip.** A payload comes back as it was exactly where it is valid. The wake of accepted
arguments comes back exactly where a delay that they ask for as a number makes a sum that is rounded to
a whole one. -/
theorem runWake_kept_iff :
    (∀ payload, parseRunWakePayload (encodeRunWakePayload other payload) = some payload ↔ payload.Valid) ∧
      ∀ raw dispatchAt completedAt advice call, parseRunCallArguments dateParse raw dispatchAt = .ok call →
        (call.ComesBack other dispatchAt completedAt advice ↔
          ∀ delayMs ∈ askedArguments raw, WholeSum completedAt delayMs) := by
  refine ⟨payload_comes_back_iff other, ?_⟩
  intro raw dispatchAt completedAt advice call hcall
  obtain ⟨record, hrecord, hwake⟩ := parseRunCallArguments_ok hcall
  rw [askedArguments, hrecord, readObject, Option.bind_some, ParsedRunCall.ComesBack]
  cases hvalue : record.lookup (word "wake") with
  | none =>
      rw [hvalue] at hwake
      injection hwake with hwake
      simp [← hwake, askedDelay, readObject]
  | some value =>
      rw [hvalue, parseWake] at hwake
      cases hparsed : parseRunWake dateParse value dispatchAt with
      | error e =>
          rw [hparsed] at hwake
          cases hwake
      | ok wake =>
          rw [hparsed] at hwake
          injection hwake with hwake
          rw [← valid_armed_iff completedAt advice hparsed, ← hwake]
          simp [payload_comes_back_iff]

end Kept

/-! ### Two calls -/

/-- `{"code":"1","detail":"x","wake":{"after":n}}`. -/
def callAfter (n : NumberLiteral) : Tree :=
  .obj [(word "code", .str (word "1")), (word "detail", .str (word "x")), (word "wake", .obj [(word "after", .num n)])]

theorem valueOf_callAfter (n : NumberLiteral) : valueOf (callAfter n) = callAfter n := by
  have hwake : valueOf (.obj [(word "after", .num n)]) = .obj [(word "after", .num n)] := by
    rw [valueOf]
    simp only [membersOf, memberOf, valueOf_num]
    rw [ownProperties_eq ["after"] (List.Sublist.refl _) (by decide) (by decide)]
  rw [callAfter, valueOf]
  simp only [membersOf, memberOf, valueOf_str, hwake]
  rw [ownProperties_eq ["code", "detail", "wake"] (List.Sublist.refl _) (by decide) (by decide)]

theorem orEmpty_print (n : NumberLiteral) : orEmpty (print some (callAfter n)) = print some (callAfter n) := by
  rw [orEmpty, if_neg]
  simp [callAfter, print]

/-- A number of milliseconds within the bounds is accepted. -/
theorem parse_callAfter (dateParse : Text → Option ℤ) (n : NumberLiteral) (dispatchAt : TimeValue) (hpos : 0 < n.value)
    (hmax : n.value ≤ MAX_RUN_WAKE_MS) : parseRunCallArguments dateParse (print some (callAfter n)) dispatchAt =
      .ok ⟨word "1", word "x", none, some (.timed (.after n.value))⟩ := by
  have hfinite : isFinite n.value = true := by
    rw [isFinite, decide_eq_true_eq, abs_of_pos hpos]
    have hsmall : MAX_RUN_WAKE_MS < 2 ^ 22 := by norm_num [max_eq]
    exact hmax.trans_lt (hsmall.trans_le (pow_le_pow_right₀ one_le_two (by decide)))
  have hafter : parseAfter (.num n) = .ok (.timed (.after n.value)) := by
    simp only [parseAfter, parseDuration, hfinite, if_true, bind, Except.bind]
    rw [if_neg (by simpa using hpos), if_neg (not_lt.mpr hmax)]
  have hwake : parseRunWake dateParse (.obj [(word "after", .num n)]) dispatchAt = .ok (.timed (.after n.value)) := hafter
  have hdetail : parseDetail (some (.str (word "x"))) = .ok (word "x") := by decide
  unfold parseRunCallArguments
  rw [orEmpty_print, jsonParse, parse_print, Option.map_some, valueOf_callAfter, callAfter]
  simp [allowed, List.lookup, parseCode, hdetail, parseSandbox, parseWake, hwake, bind, Except.bind, Except.map]

def startTime : TimeValue := ⟨1700000000000, by decide⟩

def quietAdvice : WakeAdvice := ⟨3600000, by decide, .quietExploration, .fallback⟩

def twoLiteral : NumberLiteral := ⟨word "2", by decide⟩

theorem twoLiteral_value : twoLiteral.value = 2 := by
  have h : literalValue twoLiteral.text = (2 : ℤ) := by decide +kernel
  rw [NumberLiteral.value, h, double_intCast (by decide)]
  norm_num

/-- Two milliseconds come back. -/
theorem runWake_two : ∃ call,
    parseRunCallArguments (fun _ => none)
      (word "\x7b\"code\":\"1\",\"detail\":\"x\",\"wake\":\x7b\"after\":2\x7d\x7d") startTime = .ok call ∧
    call.wake = some (.timed (.after 2)) ∧ call.ComesBack (fun _ => twoLiteral) startTime startTime quietAdvice := by
  have htext : word "\x7b\"code\":\"1\",\"detail\":\"x\",\"wake\":\x7b\"after\":2\x7d\x7d" =
      print some (callAfter twoLiteral) := by
    decide
  have hparse := parse_callAfter (fun _ => none) twoLiteral startTime (by norm_num [twoLiteral_value])
    (by norm_num [twoLiteral_value, max_eq])
  have hwhole : ∀ delayMs ∈ askedArguments (print some (callAfter twoLiteral)), WholeSum startTime delayMs := by
    intro delayMs hdelay
    have hasked : askedArguments (print some (callAfter twoLiteral)) = some twoLiteral.value := by
      rw [askedArguments, orEmpty_print, jsonParse, parse_print, Option.map_some, valueOf_callAfter, callAfter]
      simp [askedDelay, readObject, readNumber, List.lookup]
    rw [hasked, twoLiteral_value] at hdelay
    cases hdelay
    exact wholeSum_whole startTime 2
  have hkept := (runWake_kept_iff (fun _ => twoLiteral) (fun _ => none)).2 _ startTime startTime quietAdvice _ hparse
  rw [htext]
  rw [twoLiteral_value] at hparse hkept
  exact ⟨_, hparse, rfl, hkept.mpr hwhole⟩

def halfLiteral : NumberLiteral := ⟨word "1.5", by decide⟩

theorem halfLiteral_value : halfLiteral.value = 3 / 2 := by
  have h : literalValue halfLiteral.text = (3 : ℤ) * 2 ^ (-1 : ℤ) := by decide +kernel
  rw [NumberLiteral.value, h, double_mul_zpow (by decide) (by decide)]
  norm_num

theorem double_armedAt : double (3400000000003 / 2) = 3400000000003 / 2 := by
  have h := double_mul_zpow (m := 3400000000003) (e := -1) (by decide) (by decide)
  norm_num at h
  exact h

/-- How `JSON.stringify` writes the time that the wake is armed for. -/
def armedLiteral : NumberLiteral := ⟨word "1700000000001.5", by decide⟩

theorem armedLiteral_value : armedLiteral.value = 3400000000003 / 2 := by
  have h : literalValue armedLiteral.text = 3400000000003 / 2 := by decide +kernel
  rw [NumberLiteral.value, h, double_armedAt]

def halfPayload : DurableRunWakePayload where
  kind := .after
  state := .armed
  requestedAt := 1700000000000
  targetAt := 3400000000003 / 2
  advice := none

/-- One and a half milliseconds: the payload of the task is not read back. -/
theorem runWake_fractional : ∃ call,
    parseRunCallArguments (fun _ => none)
      (word "\x7b\"code\":\"1\",\"detail\":\"x\",\"wake\":\x7b\"after\":1.5\x7d\x7d") startTime = .ok call ∧
    call.wake.bind (fun wake => wake.armed startTime startTime quietAdvice) = some halfPayload ∧
    parseRunWakePayload (encodeRunWakePayload (fun _ => armedLiteral) halfPayload) = none := by
  have htext : word "\x7b\"code\":\"1\",\"detail\":\"x\",\"wake\":\x7b\"after\":1.5\x7d\x7d" =
      print some (callAfter halfLiteral) := by
    decide
  have hparse := parse_callAfter (fun _ => none) halfLiteral startTime (by norm_num [halfLiteral_value])
    (by norm_num [halfLiteral_value, max_eq])
  have hsum : (1700000000000 + 3 / 2 : ℚ) = 3400000000003 / 2 := by norm_num
  have hnumeral : numeral (fun _ => armedLiteral) halfPayload.targetAt = armedLiteral := by
    rw [numeral, if_neg]
    norm_num [halfPayload]
  have hunsafe : isSafeInteger (3400000000003 / 2) = false := by decide +kernel
  rw [halfLiteral_value, ← htext] at hparse
  refine ⟨_, hparse, ?_, ?_⟩
  · simp [ParsedRunWake.armed, resolveRunWake, startTime, hsum, double_armedAt, halfPayload, TimedWake.kind]
  · rw [parseRunWakePayload, jsonParse_encode, readObject, Option.bind_some]
    simp [parsePayloadMembers, DurableRunWakePayload.members, List.lookup, readSafeInteger, readNumber, readText,
      hnumeral, armedLiteral_value, hunsafe]

end Elpis.Sandbox.Wake
