import Elpis.Js.Bytes
import Elpis.Js.Order
import Elpis.Lib.Ordered
import Elpis.Memory.Frontmatter

/-!
# The consolidation of a memory file

`src/store/memory-consolidator.ts`. A call reads the file, asks the model for a smaller body, and
behind that, on a disk that others may have written to, looks at the file again, keeps what it
replaces as a backup and removes the backups behind the fifth. A file goes by its path from the
data directory.
-/

namespace Elpis.Memory

open Elpis.Js Elpis.Lib

abbrev Bytes := List UInt8

/-- The options, and what the consolidator calls. -/
structure Env where
  /-- The path of `memoryPath`. -/
  memoryFile : String
  thresholdTokens : ℕ
  /-- The longest part that `rewrite` gives to the model. -/
  maxChars : ℕ
  estimateTokens : ℕ → ℕ
  digest : String → String
  /-- What stands for bytes that are no UTF-8. -/
  lossy : Bytes → String
  /-- `validateConsolidationOutput`, of an output and its source. -/
  accepts : String → String → Bool

/-- What the model answers: in a round, for a part, to its text. -/
abbrev Model := ℕ → ℕ → String → Except String String

abbrev Backups := Table (Prod.fst : String × Bytes → String)

structure World where
  files : String → Option Bytes
  backups : Backups
  failedDigests : String → Option String
  /-- The backup written last for each file. -/
  latest : String → Option String

/-! ## Texts -/

/-- `readFileSync(file, 'utf8')`, of what the file holds. -/
def Env.decode (env : Env) (bytes : Bytes) : String := (decodeUtf8 bytes).getD (env.lossy bytes)

def Env.tokens (env : Env) (text : String) : ℕ := env.estimateTokens (length text)

/-- The prefix of `splitFrontmatter`. -/
def frontmatterOf (text : String) : String := String.ofList (splitFrontmatter text.toList).1

/-- The body of `splitFrontmatter`. -/
def bodyOf (text : String) : String := String.ofList (splitFrontmatter text.toList).2

/-- `text.match(/.*(?:\n|$)/g)` without the empty ones, behind what a match has so far. A line
that another line end closes is no match. -/
def matchLines (line : List Char) : List Char → List (List Char)
  | [] => if line = [] then [] else [line]
  | c :: cs =>
      if c = '\n' then (line ++ [c]) :: matchLines [] cs
      else if isLineEnd c then matchLines [] cs
      else matchLines (line ++ [c]) cs

/-- A line in pieces of `maxChars`. -/
def pieces (maxChars : ℕ) (line : List Char) : List String :=
  ((codeUnits (String.ofList line)).toChunks maxChars).map (fun units => String.ofList (ofUnits units))

/-- The lines put together as far as they fit. -/
def packLines (maxChars : ℕ) (current : String) : List (List Char) → List String
  | [] => if current = "" then [] else [current]
  | line :: rest =>
      let text := String.ofList line
      if maxChars < length text then
        (if current = "" then [] else [current]) ++ pieces maxChars line ++ packLines maxChars "" rest
      else if current ≠ "" ∧ maxChars < length current + length text then
        current :: packLines maxChars text rest
      else packLines maxChars (current ++ text) rest

def chunksAt (text : String) (maxChars : ℕ) : List String :=
  if length text ≤ maxChars then [text]
  else
    match packLines maxChars "" (matchLines [] text.toList) with
    | [] => [text]
    | chunks => chunks

/-- What is left behind a word, in whatever case. -/
def dropWord : List Char → List Char → Option (List Char)
  | [], cs => some cs
  | w :: word, c :: cs => if c.toLower = w then dropWord word cs else none
  | _ :: _, [] => none

/-- The group of `/^```(?:markdown|md)?\s*\n([\s\S]*?)\n```$/i`. -/
def fenced? : List Char → Option (List Char)
  | '`' :: '`' :: '`' :: cs =>
      (["markdown", "md", ""].filterMap (fun word => dropWord word.toList cs)).findSome? (fun behind =>
        (breaks behind).findSome? (fun inside =>
          (upTo (fun s => if s = "\n```".toList then some [] else none) inside).map Prod.fst))
  | _ => none

def cleanModelOutput (text : String) : String :=
  match fenced? (trim text).toList with
  | none => trim text
  | some inside => trim (String.ofList inside)

/-! ## The rewrite -/

section Rewrite
variable (env : Env) (model : Model)

/-- The model's text for one part. -/
def summary (round total : ℕ) (part : String × ℕ) : Except String String := do
  let raw ← model round part.2 part.1
  let cleaned := cleanModelOutput raw
  if cleaned = "" then throw s!"empty consolidation output for chunk {part.2 + 1}/{total}"
  if !env.accepts cleaned part.1 then throw "output contains excluded consolidation material"
  pure cleaned

/-- One pass. -/
def pass (round : ℕ) (current : String) : Except String String := do
  let parts := chunksAt current env.maxChars
  let summaries ← parts.zipIdx.mapM (summary env model round parts.length)
  let next := trim (String.intercalate "\n\n" summaries) ++ "\n"
  if length current ≤ length next then
    throw s!"consolidation did not shrink pass {round + 1} ({length current}→{length next} chars)"
  pure next

/-- The passes that are left. -/
def passes (front : String) : List ℕ → String → Except String String
  | [], _ => throw s!"consolidation remained above {env.thresholdTokens} tokens after 4 passes"
  | round :: rest, current => do
      let next ← pass env model round current
      if env.tokens (front ++ next) ≤ env.thresholdTokens then pure (front ++ next)
      else passes front rest next

def rewrite (original : String) : Except String String :=
  passes env model (frontmatterOf original) [0, 1, 2, 3] (bodyOf original)

end Rewrite

/-! ## The replacement -/

/-- `replace(/[^A-Za-z0-9._-]+/g, '_')`. -/
def flattenRuns : Bool → List Char → List Char
  | _, [] => []
  | inRun, c :: cs =>
      if c.isAlphanum || c == '.' || c == '_' || c == '-' then c :: flattenRuns false cs
      else if inRun then flattenRuns true cs else '_' :: flattenRuns true cs

def flatten (file : String) : String := String.ofList (flattenRuns false file.toList)

/-- Four hundred years. -/
def eraMs : ℤ := 146097 * 86400000

/-- `toISOString()`, of any clock reading: a year that has not four digits has a sign and six. -/
def toISOString (ms : ℤ) : String :=
  let year := (civil (ms.ediv 86400000)).1
  if 0 ≤ year ∧ year ≤ 9999 then isoDate ms
  else (if year < 0 then "-" else "+") ++ padded 6 year.natAbs ++ String.ofList ((isoDate (ms.emod eraMs)).toList.drop 4)

def stamp (now : ℤ) : String :=
  String.ofList ((toISOString now).toList.map (fun c => if c = ':' ∨ c = '.' then '-' else c))

/-- The name of the backup. -/
def backupName (env : Env) (file original : String) (now : ℤ) : String :=
  flatten file ++ "-" ++ stamp now ++ "-" ++ String.ofList ((env.digest original).toList.take 12) ++ ".md"

/-- The names that the pruning takes for backups of the file. -/
def isBackupOf (file name : String) : Bool :=
  (flatten file ++ "-").toList.isPrefixOf name.toList && ".md".toList.isSuffixOf name.toList

/-- The names that are removed. -/
def old (file : String) (names : List String) : List String :=
  (sort (names.filter (isBackupOf file))).reverse.drop 5

/-- `rmSync` of each of the names. -/
def removeAll (names : List String) (backups : Backups) : Backups :=
  names.foldl (fun left name => left.delete (fun row => row.1 == name)) backups

/-- `readdirSync`. -/
def namesOf (backups : Backups) : List String := backups.rows.map Prod.fst

def atomicReplace (env : Env) (file original replacement : String) (now : ℤ) (w : World) : World :=
  let backup := backupName env file original now
  let backups := w.backups.put (backup, encodeUtf8 original)
  { w with
    files := Function.update w.files file (some (encodeUtf8 replacement))
    backups := removeAll (old file (namesOf backups)) backups
    latest := Function.update w.latest file (some backup) }

/-! ## A call -/

inductive Status where
  | disabled
  | belowThreshold
  | unchanged
  | consolidated
  | failed
deriving DecidableEq, Repr

structure Result where
  file : String
  status : Status
  beforeTokens : ℕ
  afterTokens : ℕ
  error : Option String
deriving DecidableEq, Repr

/-- A file of `people`. -/
def isPerson (file : String) : Bool :=
  "people/".toList.isPrefixOf file.toList && !(file.toList.drop 7).contains '/' && ".md".toList.isSuffixOf file.toList

def Env.allowed (env : Env) (file : String) : Bool := file == env.memoryFile || isPerson file

def Env.readFile (env : Env) (w : World) (file : String) : Option String := (w.files file).map env.decode

/-- What stands before the first wait: the answer, or the text that goes to the model. -/
def started (env : Env) (file : String) (force : Bool) (w : World) : Result ⊕ String :=
  if env.thresholdTokens = 0 then .inl ⟨file, .disabled, 0, 0, none⟩
  else
    match env.readFile w file with
    | none => .inl ⟨file, .unchanged, 0, 0, none⟩
    | some original =>
        let before := env.tokens original
        if before ≤ env.thresholdTokens then .inl ⟨file, .belowThreshold, before, before, none⟩
        else if !force && w.failedDigests file == some (env.digest original) then
          .inl ⟨file, .unchanged, before, before, none⟩
        else .inr original

/-- The look at the file behind the last wait, and the size gate. -/
def checked (env : Env) (file original : String) (rewritten : Except String String) (w : World) :
    Except String String := do
  let replacement ← rewritten
  let present ← (env.readFile w file).elim (throw "ENOENT") pure
  if env.digest present ≠ env.digest original then
    throw "file changed while consolidation was running; preserving newer write"
  let before := env.tokens original
  let after := env.tokens replacement
  if before ≤ after ∨ env.thresholdTokens < after then
    throw s!"output failed size gate ({before}→{after} tokens)"
  pure replacement

/-- What stands behind the last wait. -/
def finished (env : Env) (file original : String) (rewritten : Except String String) (now : ℤ) (w : World) :
    Result × World :=
  let before := env.tokens original
  match checked env file original rewritten w with
  | .ok replacement =>
      let w' := atomicReplace env file original replacement now w
      (⟨file, .consolidated, before, env.tokens replacement, none⟩,
        { w' with failedDigests := Function.update w'.failedDigests file none })
  | .error message =>
      (⟨file, .failed, before, before, some message⟩,
        { w with failedDigests := Function.update w.failedDigests file (some (env.digest original)) })

/-- `checkNow`: begun on `w₀`, and ended on `w`, which is what others have made of it meanwhile. -/
def checkNow (env : Env) (file : String) (force : Bool) (model : Model) (now : ℤ) (w₀ w : World) :
    Except String Result × World :=
  if !env.allowed file then
    (.error s!"memory consolidation path is outside MEMORY.md/people: {file}", w)
  else
    match started env file force w₀ with
    | .inl answer => (.ok answer, w)
    | .inr original =>
        let (result, w') := finished env file original (rewrite env model original) now w
        (.ok result, w')

end Elpis.Memory
