import Elpis.Js.Text
import Elpis.Lib.JsonPrint
import Elpis.Sandbox.Jslex

/-!
# Heredoc blocks

`expandHeredocs` of `src/sandbox/transform.ts` and `protectDisplayHeredocs` of
`src/lib/heredoc-display.ts`. Both look for an opener in the blanked text and for its terminator
behind it, put a string literal in the block's place and look again, a hundred times at most.
-/

namespace Elpis.Heredoc

open Elpis.Js Elpis.Jslex
open Elpis.Lib.JsonText (quote)

/-- What `exec` answers, of a pattern with one group. -/
structure Match where
  index : ℕ
  /-- `m[0].length`. -/
  size : ℕ
  /-- `m[1]`. -/
  group : Text
deriving DecidableEq, Repr

/-- The match that starts at the beginning, from its group and what is behind it. -/
def Match.first (text : Text) (found : Text × Text) : Match :=
  ⟨0, text.length - found.2.length, found.1⟩

def Match.shift (n : ℕ) (m : Match) : Match := { m with index := n + m.index }

/-! ## The two patterns -/

/-- `[A-Za-z_]`. -/
def isTagStart (c : ℕ) : Bool := decide (65 ≤ c ∧ c ≤ 90 ∨ c = 95 ∨ 97 ≤ c ∧ c ≤ 122)

/-- `[A-Za-z0-9_]`. -/
def isTagPart (c : ℕ) : Bool := isTagStart c || decide (48 ≤ c ∧ c ≤ 57)

/-- `[ \t]`. -/
def isGap (c : ℕ) : Bool := decide (c = ' '.toNat ∨ c = '\t'.toNat)

/-- What is behind `\r?\n`. -/
def lineBreak : Text → Option Text
  | 10 :: behind => some behind
  | 13 :: 10 :: behind => some behind
  | _ => none

/-- `<<<([A-Za-z_][A-Za-z0-9_]*)[ \t]*\r?\n` at the beginning: the tag and what is behind. -/
def openerAt : Text → Option (Text × Text)
  | 60 :: 60 :: 60 :: c :: cs =>
      if isTagStart c then
        (lineBreak ((cs.dropWhile isTagPart).dropWhile isGap)).map (fun behind =>
          (c :: cs.takeWhile isTagPart, behind))
      else none
  | _ => none

/-- The first opener. -/
def opener : Text → Option Match
  | [] => none
  | c :: cs =>
      match openerAt (c :: cs) with
      | some found => some (Match.first (c :: cs) found)
      | none => (opener cs).map (Match.shift 1)

def isLineTerminator (c : ℕ) : Bool := decide (c = 10 ∨ c = 13 ∨ c = 0x2028 ∨ c = 0x2029)

/-- `[^\r\n]`. -/
def isTrailer (c : ℕ) : Bool := decide (c ≠ '\r'.toNat ∧ c ≠ '\n'.toNat)

/-- `\r?$`, behind a line. -/
def lineEnd : Text → Text
  | 13 :: behind => if behind.head?.all isLineTerminator then behind else 13 :: behind
  | behind => behind

/-- `[ \t]*${tag}(?![A-Za-z0-9_])([^\r\n]*)\r?$` at the beginning. -/
def terminatorAt (tag text : Text) : Option (Text × Text) :=
  let line := text.dropWhile isGap
  if tag.isPrefixOf line then
    let behind := line.drop tag.length
    if behind.head?.any isTagPart then none
    else some (behind.takeWhile isTrailer, lineEnd (behind.dropWhile isTrailer))
  else none

/-- The first line that the tag terminates; `start` says that a line starts here. -/
def terminator (tag : Text) : Bool → Text → Option Match
  | _, [] => none
  | start, c :: cs =>
      match if start then terminatorAt tag (c :: cs) else none with
      | some found => some (Match.first (c :: cs) found)
      | none => (terminator tag (isLineTerminator c) cs).map (Match.shift 1)

/-! ## The execution path -/

/-- A block that was found, for the record. -/
structure Block where
  tag : Text
  body : Text
deriving DecidableEq, Repr

structure Expanded where
  code : Text
  error : Option Text
  found : List Block
deriving DecidableEq, Repr

def HEREDOC_MAX : ℕ := 100

def tooMany : Text :=
  codeUnits "too many heredocs in one run (max " ++ codeUnits (toString HEREDOC_MAX) ++ codeUnits ")"

/-- `/\\[nrt]/.test`. -/
def hasEscape (text : Text) : Bool :=
  (text.zip (text.drop 1)).any (fun (c, d) => c == '\\'.toNat && (codeUnits "nrt").contains d)

def noTerminator (blanked rest : Text) (m : Match) : Text :=
  let openLine := (blanked.take m.index).count '\n'.toNat + 1
  let hint :=
    if hasEscape (rest.take 400) then
      codeUnits " — the body looks like it uses literal \\n/\\t escapes on one line; a heredoc body takes REAL newlines (the whole block is verbatim, no escaping), so put " ++
        m.group ++ codeUnits " on its own real line"
    else codeUnits " — add a line containing only " ++ m.group
  codeUnits "heredoc <<<" ++ m.group ++ codeUnits " opened at line " ++ codeUnits (toString openLine) ++
    codeUnits " has no terminator" ++ hint

/-- What is left of the loop. -/
def expandFrom : ℕ → Text → Expanded
  | 0, code => ⟨code, some tooMany, []⟩
  | n + 1, code =>
      let blanked := blankLiterals code
      match opener blanked with
      | none => ⟨code, none, []⟩
      | some m =>
          let contentStart := m.index + m.size
          let rest := code.drop contentStart
          match terminator m.group true rest with
          | none => ⟨code, some (noTerminator blanked rest m), []⟩
          | some tm =>
              let content := rest.take tm.index
              let end_ := contentStart + tm.index + tm.size
              let expanded := expandFrom n
                (code.take m.index ++ quote content ++ tm.group ++ code.drop end_)
              { expanded with found := ⟨m.group, content⟩ :: expanded.found }

def expandHeredocs (code : Text) : Expanded := expandFrom HEREDOC_MAX code

/-! ## The display path -/

structure DisplayHeredoc where
  token : Text
  source : Text
deriving DecidableEq, Repr

structure ProtectedDisplayCode where
  code : Text
  heredocs : List DisplayHeredoc
  error : Option Text
  found : List Block
deriving DecidableEq, Repr

/-- One more `_` before the token, as long as the code has it. -/
def freeToken (code : Text) : ℕ → Text → Text
  | 0, token => token
  | n + 1, token => if token <:+: code then freeToken code n ('_'.toNat :: token) else token

/-- No token longer than the code is in it. -/
def uniqueToken (code : Text) (index : ℕ) : Text :=
  freeToken code (code.length + 1)
    (codeUnits "__ELPIS_HEREDOC_" ++ codeUnits (toString index) ++ codeUnits "__")

/-- What is left of the loop. -/
def protectFrom (input : Text) : ℕ → Text → List DisplayHeredoc → ProtectedDisplayCode
  | 0, _, _ => ⟨input, [], some tooMany, []⟩
  | n + 1, code, heredocs =>
      match opener (blankLiterals code) with
      | none => ⟨code, heredocs, none, []⟩
      | some m =>
          let contentStart := m.index + m.size
          let rest := code.drop contentStart
          match terminator m.group true rest with
          | none =>
              ⟨input, [], some (codeUnits "heredoc <<<" ++ m.group ++ codeUnits " has no terminator"), []⟩
          | some tm =>
              let carriage := if ((rest.drop tm.index).take tm.size).getLast? = some '\r'.toNat then 1 else 0
              let sourceEnd := contentStart + tm.index + (tm.size - tm.group.length - carriage)
              let blockEnd := contentStart + tm.index + tm.size
              let token := uniqueToken code heredocs.length
              let shown := protectFrom input n
                (code.take m.index ++ quote token ++ tm.group ++ code.drop blockEnd)
                (heredocs ++ [⟨token, (code.drop m.index).take (sourceEnd - m.index)⟩])
              { shown with found := ⟨m.group, rest.take tm.index⟩ :: shown.found }

def protectDisplayHeredocs (input : Text) : ProtectedDisplayCode := protectFrom input HEREDOC_MAX input []

end Elpis.Heredoc
