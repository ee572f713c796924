import Elpis.Js.Text
import Elpis.Lib.Table

/-!
# Frontmatter

`src/lib/frontmatter.ts`, and the split of `src/store/memory-consolidator.ts`. Two patterns say
where the frontmatter of a text ends. A pattern is a function on what is left of the text, and the
choices of a repetition are tried in the order in which the language tries them.
-/

namespace Elpis.Memory

open Elpis.Js Elpis.Lib

/-! ## Reading -/

/-- What `\s*\n` may leave, the longest match first. -/
def breaks : List Char → List (List Char)
  | [] => []
  | c :: cs => if isSpace c then breaks cs ++ (if c = '\n' then [cs] else []) else []

/-- `\n---\s*\n`. -/
def closing? : List Char → Option (List Char)
  | '\n' :: '-' :: '-' :: '-' :: cs => (breaks cs).head?
  | _ => none

/-- `([\s\S]*?)` up to the first place where `stop` matches, with what is left behind it. -/
def upTo (stop : List Char → Option (List Char)) : List Char → Option (List Char × List Char)
  | [] => (stop []).map (fun rest => ([], rest))
  | c :: cs =>
      match stop (c :: cs) with
      | some rest => some ([], rest)
      | none => (upTo stop cs).map (fun (inside, rest) => (c :: inside, rest))

/-- `/^---\s*\n([\s\S]*?)\n---\s*\n([\s\S]*)$/`: both groups. -/
def envelope : List Char → Option (List Char × List Char)
  | '-' :: '-' :: '-' :: cs => (breaks cs).findSome? (upTo closing?)
  | _ => none

inductive Value where
  | scalar (text : String)
  | array (items : List String)
deriving DecidableEq, Repr

abbrev Fields := Table (Prod.fst : String × Value → String)

structure Frontmatter where
  frontmatter : Fields
  body : String
deriving DecidableEq

/-- `slice(1, -1)`. -/
def unwrap (value : List Char) : List Char := value.tail.dropLast

def wrapped (opens closes : Char) (value : List Char) : Bool :=
  value.head? == some opens && value.getLast? == some closes

/-- `split(sep)`. -/
def splitOn (sep : Char) : List Char → List (List Char)
  | [] => [[]]
  | c :: cs =>
      if c = sep then [] :: splitOn sep cs
      else
        match splitOn sep cs with
        | [] => [[c]]
        | part :: parts => (c :: part) :: parts

/-- The value behind the colon. -/
def readValue (value : List Char) : Value :=
  if wrapped '[' ']' value then
    .array (((splitOn ',' (unwrap value)).map trimList).filter (fun item => !item.isEmpty) |>.map String.ofList)
  else if wrapped '"' '"' value || wrapped '\x27' '\x27' value then .scalar (String.ofList (unwrap value))
  else .scalar (String.ofList value)

/-- One line of the frontmatter. -/
def readLine (fields : Fields) (line : List Char) : Fields :=
  match line.idxOf? ':' with
  | none => fields
  | some i =>
      let key := String.ofList (trimList (line.take i))
      -- an assignment to this one makes no property
      if key = "__proto__" then fields else fields.put (key, readValue (trimList (line.drop (i + 1))))

def readFields (block : List Char) : Fields := (splitOn '\n' block).foldl readLine Table.empty

def parseFrontmatter (text : List Char) : Option Frontmatter :=
  (envelope text).map (fun (block, body) => ⟨readFields block, String.ofList (trimList body)⟩)

/-! ## Splitting -/

/-- `\r?\n`. -/
def newline? : List Char → Option (List Char)
  | '\n' :: cs => some cs
  | '\r' :: '\n' :: cs => some cs
  | _ => none

/-- `---\r?\n`. -/
def fence? : List Char → Option (List Char)
  | '-' :: '-' :: '-' :: cs => newline? cs
  | _ => none

/-- `\r?\n---\r?\n`. -/
def closingFence? (cs : List Char) : Option (List Char) := (newline? cs).bind fence?

/-- `splitFrontmatter`: what is left behind `/^(---\r?\n[\s\S]*?\r?\n---\r?\n)/`. -/
def behindFrontmatter (text : List Char) : Option (List Char) :=
  (fence? text).bind (fun cs => (upTo closingFence? cs).map Prod.snd)

/-- The prefix and the body of `splitFrontmatter`. -/
def splitFrontmatter (text : List Char) : List Char × List Char :=
  match behindFrontmatter text with
  | none => ([], text)
  | some body => (text.take (text.length - body.length), body)

end Elpis.Memory
