import Elpis.Gateway.LlmProxyCodec
import Elpis.Lib.JsonPrint

/-!
# Authorizing a request to a model

`authorizeLlmProxyRequest` of `packages/gateway-protocol/src/llm-proxy.ts`. The payload of a request
names the upstream model itself, and it is accepted only where it is the text that `JSON.stringify`
makes of what `JSON.parse` reads in it. `canonical` is how `JSON.stringify` writes the number that a
literal stands for, none where it is not finite.
-/

namespace Elpis.Gateway.LlmProxy

open Elpis.Js Elpis.Lib.JsonText

/-! ## Objects -/

section Members
variable {α : Type}

/-- An own property that is there keeps its place. -/
def put (ms : List (Text × α)) (m : Text × α) : List (Text × α) :=
  if m.1 ∈ ms.map Prod.fst then ms.map (fun n => if n.1 = m.1 then m else n) else ms ++ [m]

/-- The array index that a key is, if it is one. -/
def arrayIndex (k : Text) : Option ℕ :=
  let n := k.foldl (fun n c => 10 * n + (c - '0'.toNat)) 0
  if k ≠ [] ∧ k.all Lib.JsonText.isDigit = true ∧ (k = word "0" ∨ k.head? ≠ some '0'.toNat) ∧ n < 2 ^ 32 - 1 then some n
  else none

/-- The order of own properties: array indices first, ascending. -/
def ownOrder (ms : List (Text × α)) : List (Text × α) :=
  (ms.filter (fun m => (arrayIndex m.1).isSome)).mergeSort
      (fun m n => decide ((arrayIndex m.1).getD 0 ≤ (arrayIndex n.1).getD 0)) ++
    ms.filter (fun m => !(arrayIndex m.1).isSome)

/-- The own properties of an object that a text has these members of. -/
def ownProperties (ms : List (Text × α)) : List (Text × α) := ownOrder (ms.foldl put [])

theorem put_keys (ms : List (Text × α)) (m : Text × α) :
    (put ms m).map Prod.fst = if m.1 ∈ ms.map Prod.fst then ms.map Prod.fst else ms.map Prod.fst ++ [m.1] := by
  rw [put]
  split
  · rw [List.map_map]
    apply List.map_congr_left
    intro n _
    simp only [Function.comp_apply]
    split
    · rename_i h
      exact h.symm
    · rfl
  · rw [List.map_append]
    rfl

theorem nodup_put {ms : List (Text × α)} (h : (ms.map Prod.fst).Nodup) (m : Text × α) :
    ((put ms m).map Prod.fst).Nodup := by
  rw [put_keys]
  split
  · exact h
  · rename_i hnew
    rw [List.nodup_append]
    refine ⟨h, List.nodup_singleton _, ?_⟩
    intro k hk k' hk'
    rw [List.mem_singleton.mp hk']
    rintro rfl
    exact hnew hk

theorem nodup_foldl_put (ms sofar : List (Text × α)) (h : (sofar.map Prod.fst).Nodup) :
    ((ms.foldl put sofar).map Prod.fst).Nodup := by
  induction ms generalizing sofar with
  | nil => exact h
  | cons m ms ih => exact ih (put sofar m) (nodup_put h m)

theorem ownOrder_perm (ms : List (Text × α)) : (ownOrder ms).Perm ms :=
  ((List.mergeSort_perm _ _).append_right _).trans (List.filter_append_perm _ ms)

/-- No two own properties have the same key. -/
theorem nodup_ownProperties (ms : List (Text × α)) : ((ownProperties ms).map Prod.fst).Nodup :=
  (((ownOrder_perm _).map Prod.fst).nodup_iff).mpr (nodup_foldl_put ms [] List.nodup_nil)

end Members

mutual

/-- What `JSON.parse` makes of a reading. -/
def valueOf : Tree → Tree
  | .arr xs => .arr (valuesOf xs)
  | .obj ms => .obj (ownProperties (membersOf ms))
  | .null => .null
  | .bool b => .bool b
  | .num n => .num n
  | .str s => .str s

def valuesOf : List Tree → List Tree
  | [] => []
  | x :: xs => valueOf x :: valuesOf xs

def membersOf : List (Text × Tree) → List (Text × Tree)
  | [] => []
  | m :: ms => memberOf m :: membersOf ms

def memberOf : Text × Tree → Text × Tree
  | (k, x) => (k, valueOf x)

end

/-- `JSON.parse`. -/
def jsonParse (text : Text) : Option Tree := (Lib.JsonText.parse text).map valueOf

mutual

/-- `jsonWithoutHooks`: a copy, of objects without the key `toJSON` and less than 32 deep. -/
def jsonWithoutHooks : ℕ → Tree → Option Tree
  | depth, .arr xs => if 32 ≤ depth then none else (valuesWithoutHooks (depth + 1) xs).map .arr
  | depth, .obj ms => if 32 ≤ depth then none else (membersWithoutHooks (depth + 1) ms).map .obj
  | _, .null => some .null
  | _, .bool b => some (.bool b)
  | _, .num n => some (.num n)
  | _, .str s => some (.str s)

def valuesWithoutHooks : ℕ → List Tree → Option (List Tree)
  | _, [] => some []
  | depth, x :: xs => do some ((← jsonWithoutHooks depth x) :: (← valuesWithoutHooks depth xs))

def membersWithoutHooks : ℕ → List (Text × Tree) → Option (List (Text × Tree))
  | _, [] => some []
  | depth, m :: ms => do some ((← memberWithoutHooks depth m) :: (← membersWithoutHooks depth ms))

def memberWithoutHooks : ℕ → Text × Tree → Option (Text × Tree)
  | depth, (k, x) => if k = word "toJSON" then none else (jsonWithoutHooks depth x).map (fun y => (k, y))

end

mutual

theorem jsonWithoutHooks_eq {depth : ℕ} {x y : Tree} (h : jsonWithoutHooks depth x = some y) : y = x := by
  match x with
  | .null => simpa [jsonWithoutHooks] using h.symm
  | .bool b => simpa [jsonWithoutHooks] using h.symm
  | .num n => simpa [jsonWithoutHooks] using h.symm
  | .str s => simpa [jsonWithoutHooks] using h.symm
  | .arr xs =>
      rw [jsonWithoutHooks] at h
      split at h
      · cases h
      · obtain ⟨ys, hys, rfl⟩ := Option.map_eq_some_iff.mp h
        rw [valuesWithoutHooks_eq hys]
  | .obj ms =>
      rw [jsonWithoutHooks] at h
      split at h
      · cases h
      · obtain ⟨ns, hns, rfl⟩ := Option.map_eq_some_iff.mp h
        rw [membersWithoutHooks_eq hns]
termination_by sizeOf x

theorem valuesWithoutHooks_eq {depth : ℕ} {xs ys : List Tree} (h : valuesWithoutHooks depth xs = some ys) : ys = xs := by
  match xs with
  | [] => simpa [valuesWithoutHooks] using h.symm
  | x :: xs =>
      rw [valuesWithoutHooks] at h
      obtain ⟨y, hy, h⟩ := Option.bind_eq_some_iff.mp h
      obtain ⟨zs, hzs, heq⟩ := Option.bind_eq_some_iff.mp h
      cases heq
      rw [jsonWithoutHooks_eq hy, valuesWithoutHooks_eq hzs]
termination_by sizeOf xs

theorem membersWithoutHooks_eq {depth : ℕ} {ms ns : List (Text × Tree)}
    (h : membersWithoutHooks depth ms = some ns) : ns = ms := by
  match ms with
  | [] => simpa [membersWithoutHooks] using h.symm
  | (k, x) :: ms =>
      rw [membersWithoutHooks, memberWithoutHooks] at h
      obtain ⟨n, hn, h⟩ := Option.bind_eq_some_iff.mp h
      obtain ⟨ns, hns, heq⟩ := Option.bind_eq_some_iff.mp h
      cases heq
      split at hn
      · cases hn
      · obtain ⟨y, hy, rfl⟩ := Option.map_eq_some_iff.mp hn
        rw [jsonWithoutHooks_eq hy, membersWithoutHooks_eq hns]
termination_by sizeOf ms

end

/-! ## The authorization -/

inductive AuthorizationFailureCode where
  | not_found | stale_target | route_not_allowed | forbidden
deriving DecidableEq, Repr

inductive AuthorizationResult where
  | ok (model : CatalogModel)
  | failure (code : AuthorizationFailureCode)
deriving DecidableEq

section Authorize
variable (hash : List UInt8 → String) (localeCompare : String → String → ℤ)
variable (canonical : NumberLiteral → Option NumberLiteral)

/-- `parsed[key]`. -/
def property (key : String) : Tree → Option Tree
  | .obj ms => ms.lookup (word key)
  | _ => none

/-- `canonicalPayloadModel`; nothing is an invalid payload. -/
def canonicalPayloadModel (payload : List UInt8) : Option Text := do
  let text ← decodeUtf8 payload
  match ← jsonParse (codeUnits text) with
  | .obj ms =>
      let clean ← jsonWithoutHooks 0 (.obj ms)
      if print canonical clean ≠ codeUnits text then none
      else
        match property "model" (.obj ms) with
        | some (.str model) => some model
        | _ => none
  | _ => none

/-- The entry that the loop ends with. -/
def catalogEntry (catalog : Catalog) (request : Request) : Option CatalogModel :=
  (catalog.models.filter (fun m => decide (m.modelRef = request.modelRef))).getLast?

/-- Nothing is an `LlmProxyCodecError`. -/
def authorizeLlmProxyRequest (catalog : Catalog) (request : Request) : Option AuthorizationResult :=
  if catalog.valid localeCompare = true ∧ request.valid hash = true then
    match catalogEntry catalog request with
    | none => some (.failure .not_found)
    | some model =>
        if model.targetGeneration ≠ request.targetGeneration then some (.failure .stale_target)
        else if request.route ∉ model.allowedRoutes then some (.failure .route_not_allowed)
        else if request.route.isGet = true then some (.ok model)
        else do
          let named ← canonicalPayloadModel canonical request.payload
          if named ≠ codeUnits model.model then some (.failure .forbidden) else some (.ok model)
  else none

/-! ## What is accepted -/

/-- The bytes are the text that `JSON.stringify` writes of the object that `JSON.parse` reads in it,
and the object names this model. -/
def CanonicalObject (payload : List UInt8) (model : String) : Prop :=
  ∃ text ms, payload = encodeUtf8 text ∧ jsonParse (codeUnits text) = some (.obj ms) ∧
    print canonical (.obj ms) = codeUnits text ∧ ms.lookup (word "model") = some (.str (codeUnits model))

/-- However the text is read, it is an object with a single member of the name `model`, and that
member is this model. -/
def NamesOnly (payload : List UInt8) (model : String) : Prop :=
  ∀ text, decodeUtf8 payload = some text → ∀ reading, Document (codeUnits text) reading →
    ∃ ms, reading = .obj ms ∧
      ms.filter (fun m => decide (m.1 = word "model")) = [(word "model", .str (codeUnits model))]

theorem encodeUtf8_of_decodeUtf8 {bytes : List UInt8} {text : String} (h : decodeUtf8 bytes = some text) :
    bytes = encodeUtf8 text := by
  rw [decodeUtf8, String.fromUTF8?] at h
  split at h
  · cases h
    rfl
  · cases h

theorem obj_of_valueOf {x : Tree} {ms : List (Text × Tree)} (h : valueOf x = .obj ms) : (ms.map Prod.fst).Nodup := by
  cases x with
  | obj ns =>
      rw [valueOf] at h
      cases h
      exact nodup_ownProperties _
  | arr xs =>
      rw [valueOf] at h
      cases h
  | null =>
      rw [valueOf] at h
      cases h
  | bool b =>
      rw [valueOf] at h
      cases h
  | num n =>
      rw [valueOf] at h
      cases h
  | str s =>
      rw [valueOf] at h
      cases h

theorem roundedMembers_eq (ms : List (Text × Tree)) :
    roundedMembers canonical ms = ms.map (fun m => (m.1, rounded canonical m.2)) := by
  induction ms with
  | nil => rw [roundedMembers, List.map_nil]
  | cons m ms ih => rw [roundedMembers, ih, List.map_cons, roundedMember]

/-- Where keys are not repeated, the first member of a name is the only one. -/
theorem filter_of_lookup {ms : List (Text × Tree)} {k : Text} {x : Tree} (hnodup : (ms.map Prod.fst).Nodup)
    (h : ms.lookup k = some x) : ms.filter (fun m => decide (m.1 = k)) = [(k, x)] := by
  induction ms with
  | nil => cases h
  | cons m ms ih =>
      obtain ⟨k', y⟩ := m
      rw [List.map_cons, List.nodup_cons] at hnodup
      by_cases hk : k = k'
      · subst hk
        rw [List.lookup_cons_self] at h
        cases h
        have hrest : ms.filter (fun m => decide (m.1 = k)) = [] := by
          rw [List.filter_eq_nil_iff]
          intro m hm
          rw [decide_eq_true_eq]
          rintro rfl
          exact hnodup.1 (List.mem_map.mpr ⟨m, hm, rfl⟩)
        rw [List.filter_cons_of_pos (by simp), hrest]
      · rw [List.lookup_cons, beq_false_of_ne hk] at h
        rw [List.filter_cons_of_neg (by simpa using Ne.symm hk)]
        exact ih hnodup.2 h

theorem lookup_rounded (ms : List (Text × Tree)) (k : Text) :
    (roundedMembers canonical ms).lookup k = (ms.lookup k).map (rounded canonical) := by
  induction ms with
  | nil => rw [roundedMembers, List.lookup_nil, Option.map_none]
  | cons m ms ih =>
      obtain ⟨k', x⟩ := m
      rw [roundedMembers, roundedMember, List.lookup_cons, List.lookup_cons]
      cases k == k' with
      | true => rfl
      | false => exact ih

/-- A text that is printed from an object reads as no other one. -/
theorem namesOnly_of_canonical {payload : List UInt8} {model : String}
    (h : CanonicalObject canonical payload model) : NamesOnly payload model := by
  obtain ⟨text, ms, rfl, hparse, hprint, hmodel⟩ := h
  obtain ⟨x, -, hx⟩ := Option.map_eq_some_iff.mp hparse
  have hnodup := obj_of_valueOf hx
  intro text' htext reading hreading
  rw [decodeUtf8_encodeUtf8] at htext
  cases htext
  have hprinted := document_print canonical (.obj ms)
  rw [hprint] at hprinted
  have hobj : rounded canonical (.obj ms) = .obj (roundedMembers canonical ms) := by rw [rounded]
  refine ⟨roundedMembers canonical ms, ?_, filter_of_lookup ?_ ?_⟩
  · rw [hreading.unique hprinted, hobj]
  · rw [roundedMembers_eq, List.map_map]
    exact hnodup
  · rw [lookup_rounded, hmodel, Option.map_some, rounded]

theorem canonicalObject_of_model {payload : List UInt8} {model : String}
    (h : canonicalPayloadModel canonical payload = some (codeUnits model)) :
    CanonicalObject canonical payload model := by
  obtain ⟨text, htext, h⟩ := Option.bind_eq_some_iff.mp h
  obtain ⟨parsed, hparsed, h⟩ := Option.bind_eq_some_iff.mp h
  split at h
  · rename_i ms
    obtain ⟨clean, hclean, h⟩ := Option.bind_eq_some_iff.mp h
    obtain rfl := jsonWithoutHooks_eq hclean
    split at h
    · cases h
    · rename_i hprint
      rw [not_not] at hprint
      split at h
      · rename_i m hm
        cases h
        exact ⟨text, ms, encodeUtf8_of_decodeUtf8 htext, hparsed, hprint, hm⟩
      · cases h
  · cases h

theorem mem_of_catalogEntry {catalog : Catalog} {request : Request} {model : CatalogModel}
    (h : catalogEntry catalog request = some model) :
    model ∈ catalog.models ∧ model.modelRef = request.modelRef := by
  have hmem := List.mem_of_getLast? h
  rw [List.mem_filter, decide_eq_true_eq] at hmem
  exact hmem

/-- A request is accepted only for an entry of the catalog with its model reference, its generation
and its route. With a body, the payload is the canonical text of an object that names the
entry's upstream model, and no reading of it names another one. -/
theorem authorized_model {catalog : Catalog} {request : Request} {model : CatalogModel}
    (h : authorizeLlmProxyRequest hash localeCompare canonical catalog request = some (.ok model)) :
    model ∈ catalog.models ∧ model.modelRef = request.modelRef ∧
      model.targetGeneration = request.targetGeneration ∧ request.route ∈ model.allowedRoutes ∧
      (request.route.isGet = false →
        CanonicalObject canonical request.payload model.model ∧ NamesOnly request.payload model.model) := by
  rw [authorizeLlmProxyRequest] at h
  split at h
  · split at h
    · cases h
    · rename_i entry hentry
      obtain ⟨hmem, href⟩ := mem_of_catalogEntry hentry
      split at h
      · cases h
      · rename_i hgeneration
        rw [not_not] at hgeneration
        split at h
        · cases h
        · rename_i hroute
          rw [not_not] at hroute
          split at h
          · rename_i hget
            cases h
            refine ⟨hmem, href, hgeneration, hroute, ?_⟩
            intro hbody
            rw [hget] at hbody
            cases hbody
          · obtain ⟨named, hnamed, h⟩ := Option.bind_eq_some_iff.mp h
            split at h
            · cases h
            · rename_i hsame
              rw [not_not] at hsame
              cases h
              have hobject := canonicalObject_of_model canonical (hnamed.trans (congrArg some hsame))
              exact ⟨hmem, href, hgeneration, hroute, fun _ => ⟨hobject, namesOnly_of_canonical canonical hobject⟩⟩
  · cases h

end Authorize

def smallEntry : CatalogModel where
  modelRef := "acme/small"
  targetGeneration := "egt1.AAAAAAAAAAAAAAAAAAAAAA"
  providerType := .openaiCompatible
  model := "m1"
  allowedRoutes := [.chatCompletions]
  contextSize := none
  reasoningEffort := none
  reasoningSummary := none
  reasoningContext := none
  toolTier := none
  externalThinking := false
  toolContractVersion := "1"
  callTimeoutMs := 0
  streamIdleTimeoutMs := 0

/-- SHA-256 of the payload below. -/
def smallDigest : String := "18eea532005374fa06577b85f8b5989f43c09ed6a2b039804c608b8aa5b192d3"

def smallRequest : Request where
  requestId := "egr1.AAAAAAAAAAAAAAAAAAAAAA"
  modelRef := "acme/small"
  targetGeneration := "egt1.AAAAAAAAAAAAAAAAAAAAAA"
  route := .chatCompletions
  transport := .none
  byteLength := 14
  sha256 := smallDigest
  payload := encodeUtf8 "\x7b\"model\":\"m1\"\x7d"

theorem authorized_small :
    NamesOnly smallRequest.payload "m1" ∧ smallEntry.modelRef = smallRequest.modelRef := by
  have hok : authorizeLlmProxyRequest (fun _ => smallDigest) (fun _ _ => 0) some ⟨1, [smallEntry]⟩ smallRequest =
      some (.ok smallEntry) := by
    decide +kernel
  obtain ⟨-, href, -, -, hbody⟩ := authorized_model (fun _ => smallDigest) (fun _ _ => 0) some hok
  exact ⟨(hbody rfl).2, href⟩

end Elpis.Gateway.LlmProxy
