import Mathlib.Data.List.TakeWhile
import Mathlib.Tactic

/-!
# JSON texts

The grammar of JSON on code units, and a parser that reads what the grammar derives and nothing
else. A reading keeps all members of an object in their order, those of one name too, and every
number as the literal it is.
-/

namespace Elpis.Lib.JsonText

abbrev Text := List ℕ

def word (s : String) : Text := s.toList.map Char.toNat

/-- The text behind this unit. -/
def after (c : ℕ) : Text → Option Text
  | [] => none
  | d :: text => if d = c then some text else none

/-! ## Numbers -/

def isDigit (c : ℕ) : Bool := decide (48 ≤ c ∧ c ≤ 57)

/-- Behind one digit or more. -/
def digits : Text → Option Text
  | [] => none
  | c :: text => if isDigit c then some (text.dropWhile isDigit) else none

/-- Behind `0` or digits that do not begin with it. -/
def whole (text : Text) : Option Text :=
  match after '0'.toNat text with
  | some behind => some behind
  | none => digits text

def fraction (text : Text) : Option Text :=
  match after '.'.toNat text with
  | some behind => digits behind
  | none => some text

/-- Behind a sign, if there is one. -/
def unsigned (signs : List ℕ) : Text → Text
  | [] => []
  | c :: text => if signs.contains c then text else c :: text

def exponent : Text → Option Text
  | [] => some []
  | c :: text =>
      if c = 'e'.toNat ∨ c = 'E'.toNat then digits (unsigned ['+'.toNat, '-'.toNat] text) else some (c :: text)

/-- `-?(0|[1-9][0-9]*)(\.[0-9]+)?([eE][+-]?[0-9]+)?`. -/
def isNumber (text : Text) : Bool :=
  decide (((whole (unsigned ['-'.toNat] text)).bind fraction).bind exponent = some [])

structure NumberLiteral where
  text : Text
  grammar : isNumber text = true

/-- `[0-9+\-.eE]`. -/
def isNumberUnit (c : ℕ) : Bool := isDigit c || (word "+-.eE").contains c

/-- What `read` takes off the front are units of numbers. -/
def TakesNumber (read : Text → Option Text) : Prop :=
  ∀ text behind, read text = some behind → ∃ front, text = front ++ behind ∧ ∀ c ∈ front, isNumberUnit c = true

theorem after_eq_some {c : ℕ} {text behind : Text} : after c text = some behind ↔ text = c :: behind := by
  cases text with
  | nil => simp [after]
  | cons d text =>
      rw [after]
      split
      · rename_i h
        rw [h]
        simp
      · rename_i h
        simp [h]

theorem takesNumber_digits : TakesNumber digits := by
  intro text behind h
  cases text with
  | nil => cases h
  | cons c text =>
      rw [digits] at h
      split at h
      · rename_i hc
        cases h
        refine ⟨c :: text.takeWhile isDigit, ?_, ?_⟩
        · rw [List.cons_append, List.takeWhile_append_dropWhile]
        · intro d hd
          rcases List.mem_cons.mp hd with rfl | hd
          · simp [isNumberUnit, hc]
          · simp [isNumberUnit, List.mem_takeWhile_imp hd]
      · cases h

theorem takesNumber_after {c : ℕ} (hc : isNumberUnit c = true) : TakesNumber (after c) := by
  intro text behind h
  rw [after_eq_some] at h
  refine ⟨[c], h, ?_⟩
  intro d hd
  rw [List.mem_singleton.mp hd]
  exact hc

theorem TakesNumber.bind {f g : Text → Option Text} (hf : TakesNumber f) (hg : TakesNumber g) :
    TakesNumber (fun text => (f text).bind g) := by
  intro text behind h
  obtain ⟨middle, hmiddle, hbehind⟩ := Option.bind_eq_some_iff.mp h
  obtain ⟨front, rfl, hfront⟩ := hf text middle hmiddle
  obtain ⟨more, rfl, hmore⟩ := hg middle behind hbehind
  refine ⟨front ++ more, by rw [List.append_assoc], ?_⟩
  intro c hc
  rcases List.mem_append.mp hc with hc | hc
  · exact hfront c hc
  · exact hmore c hc

theorem takesNumber_unsigned (signs : List ℕ) (h : ∀ c ∈ signs, isNumberUnit c = true) :
    TakesNumber (fun text => some (unsigned signs text)) := by
  intro text behind hbehind
  cases hbehind
  cases text with
  | nil => exact ⟨[], rfl, by simp⟩
  | cons c text =>
      rw [unsigned]
      split
      · rename_i hc
        refine ⟨[c], rfl, ?_⟩
        intro d hd
        rw [List.mem_singleton.mp hd]
        exact h c (by simpa using hc)
      · exact ⟨[], rfl, by simp⟩

theorem takesNumber_whole : TakesNumber whole := by
  intro text behind h
  rw [whole] at h
  split at h
  · rename_i hzero
    cases h
    exact takesNumber_after (by decide) text behind hzero
  · exact takesNumber_digits text behind h

theorem takesNumber_fraction : TakesNumber fraction := by
  intro text behind h
  rw [fraction] at h
  split at h
  · rename_i hpoint
    have hpoints : TakesNumber (after '.'.toNat) := takesNumber_after (by decide)
    refine hpoints.bind takesNumber_digits text behind ?_
    simp only [hpoint]
    exact h
  · cases h
    exact ⟨[], rfl, by simp⟩

theorem takesNumber_exponent : TakesNumber exponent := by
  intro text behind h
  cases text with
  | nil =>
      cases h
      exact ⟨[], rfl, by simp⟩
  | cons c text =>
      rw [exponent] at h
      split at h
      · rename_i hc
        have hsigned := (takesNumber_unsigned ['+'.toNat, '-'.toNat] (by decide)).bind takesNumber_digits
        obtain ⟨front, rfl, hfront⟩ := hsigned text behind h
        refine ⟨c :: front, rfl, ?_⟩
        intro d hd
        rcases List.mem_cons.mp hd with rfl | hd
        · rcases hc with rfl | rfl
          · decide
          · decide
        · exact hfront d hd
      · cases h
        exact ⟨[], rfl, by simp⟩

theorem NumberLiteral.units (n : NumberLiteral) : ∀ c ∈ n.text, isNumberUnit c = true := by
  have hread := (((takesNumber_unsigned ['-'.toNat] (by decide)).bind takesNumber_whole).bind
    takesNumber_fraction).bind takesNumber_exponent
  have hgrammar := n.grammar
  rw [isNumber, decide_eq_true_eq] at hgrammar
  obtain ⟨front, htext, hfront⟩ := hread n.text [] (by simpa using hgrammar)
  rw [List.append_nil] at htext
  rw [htext]
  exact hfront

theorem NumberLiteral.text_ne_nil (n : NumberLiteral) : n.text ≠ [] := by
  intro h
  have hgrammar := n.grammar
  rw [h] at hgrammar
  exact absurd hgrammar (by decide)

/-- The longest run of such units, if it is a number. -/
def readNumber (text : Text) : Option (NumberLiteral × Text) :=
  if h : isNumber (text.takeWhile isNumberUnit) = true then
    some (⟨text.takeWhile isNumberUnit, h⟩, text.dropWhile isNumberUnit)
  else none

theorem readNumber_append (n : NumberLiteral) {behind : Text} (hbehind : behind.head?.any isNumberUnit = false) :
    readNumber (n.text ++ behind) = some (n, behind) := by
  have hstop : behind.takeWhile isNumberUnit = [] ∧ behind.dropWhile isNumberUnit = behind := by
    cases behind with
    | nil => exact ⟨rfl, rfl⟩
    | cons c behind => simp_all
  have htake : (n.text ++ behind).takeWhile isNumberUnit = n.text := by
    rw [List.takeWhile_append_of_pos n.units, hstop.1, List.append_nil]
  have hdrop : (n.text ++ behind).dropWhile isNumberUnit = behind := by
    rw [List.dropWhile_append_of_pos n.units, hstop.2]
  simp [readNumber, htake, hdrop, n.grammar]

theorem append_of_readNumber {text behind : Text} {n : NumberLiteral} (h : readNumber text = some (n, behind)) :
    text = n.text ++ behind := by
  rw [readNumber] at h
  split at h
  · cases h
    exact (List.takeWhile_append_dropWhile ..).symm
  · cases h

/-! ## Strings -/

/-- The value of a hexadecimal digit. -/
def hexValue (c : ℕ) : Option ℕ :=
  if isDigit c then some (c - 48)
  else if 97 ≤ c ∧ c ≤ 102 then some (c - 87)
  else if 65 ≤ c ∧ c ≤ 70 then some (c - 55)
  else none

def hex4 (a b c d : ℕ) : Option ℕ := do
  some ((((← hexValue a) * 16 + (← hexValue b)) * 16 + (← hexValue c)) * 16 + (← hexValue d))

/-- What a letter behind a backslash stands for. -/
def escapes : List (ℕ × ℕ) :=
  [('"'.toNat, '"'.toNat), ('\\'.toNat, '\\'.toNat), ('/'.toNat, '/'.toNat), ('b'.toNat, 8), ('f'.toNat, 12),
    ('n'.toNat, 10), ('r'.toNat, 13), ('t'.toNat, 9)]

def isPlain (c : ℕ) : Bool := decide (32 ≤ c ∧ c ≠ '"'.toNat ∧ c ≠ '\\'.toNat)

/-- `Chars text s behind`: the text behind an opening quote reads as `s`, up to the closing one. -/
inductive Chars : Text → Text → Text → Prop
  | close (behind) : Chars ('"'.toNat :: behind) [] behind
  | plain {c text s behind} (hc : isPlain c = true) (rest : Chars text s behind) : Chars (c :: text) (c :: s) behind
  | escape {e c text s behind} (he : escapes.lookup e = some c) (rest : Chars text s behind) :
      Chars ('\\'.toNat :: e :: text) (c :: s) behind
  | unicode {a b c d u text s behind} (hu : hex4 a b c d = some u) (rest : Chars text s behind) :
      Chars ('\\'.toNat :: 'u'.toNat :: a :: b :: c :: d :: text) (u :: s) behind

/-- One unit of a string, and what is behind it. -/
def readUnit : Text → Option (ℕ × Text)
  | [] => none
  | c :: text =>
      if isPlain c then some (c, text)
      else if c = '\\'.toNat then
        match text with
        | e :: text =>
            match escapes.lookup e with
            | some c => some (c, text)
            | none =>
                if e = 'u'.toNat then
                  match text with
                  | a :: b :: c :: d :: text => (hex4 a b c d).map (fun u => (u, text))
                  | _ => none
                else none
        | [] => none
      else none

def readChars : ℕ → Text → Option (Text × Text)
  | 0, _ => none
  | fuel + 1, text =>
      match after '"'.toNat text with
      | some behind => some ([], behind)
      | none => do
          let (u, text) ← readUnit text
          let (s, behind) ← readChars fuel text
          some (u :: s, behind)

theorem chars_of_readUnit {text rest s behind : Text} {u : ℕ} (h : readUnit text = some (u, rest))
    (hrest : Chars rest s behind) : Chars text (u :: s) behind := by
  unfold readUnit at h
  split at h
  · cases h
  · split at h
    · rename_i hc
      cases h
      exact .plain hc hrest
    · split at h
      · rename_i hc
        subst hc
        split at h
        · split at h
          · rename_i he
            cases h
            exact .escape he hrest
          · split at h
            · rename_i hu
              subst hu
              split at h
              · obtain ⟨u, hhex, heq⟩ := Option.map_eq_some_iff.mp h
                cases heq
                exact .unicode hhex hrest
              · cases h
            · cases h
        · cases h
      · cases h

theorem readChars_sound {fuel : ℕ} {text s behind : Text} (h : readChars fuel text = some (s, behind)) :
    Chars text s behind := by
  induction fuel generalizing text s with
  | zero => cases h
  | succ fuel ih =>
      rw [readChars] at h
      split at h
      · rename_i hclose
        cases h
        rw [after_eq_some.mp hclose]
        exact .close behind
      · obtain ⟨⟨u, rest⟩, hunit, h⟩ := Option.bind_eq_some_iff.mp h
        obtain ⟨⟨t, behind'⟩, hchars, heq⟩ := Option.bind_eq_some_iff.mp h
        cases heq
        exact chars_of_readUnit hunit (ih hchars)

theorem readChars_cons {fuel : ℕ} {text rest s behind : Text} {u : ℕ} (hquote : after '"'.toNat text = none)
    (hunit : readUnit text = some (u, rest)) (hrest : readChars fuel rest = some (s, behind)) :
    readChars (fuel + 1) text = some (u :: s, behind) := by
  rw [readChars, hquote]
  simp [hunit, hrest]

theorem readChars_complete {text s behind : Text} (h : Chars text s behind) {fuel : ℕ} (hfuel : text.length ≤ fuel) :
    readChars fuel text = some (s, behind) := by
  induction h generalizing fuel with
  | close behind =>
      cases fuel with
      | zero => cases hfuel
      | succ fuel => simp [readChars, after]
  | @plain c text s behind hc rest ih =>
      cases fuel with
      | zero => cases hfuel
      | succ fuel =>
          have hquote : c ≠ '"'.toNat := by
            rw [isPlain, decide_eq_true_eq] at hc
            exact hc.2.1
          refine readChars_cons ?_ ?_ (ih (Nat.le_of_succ_le_succ hfuel))
          · rw [after, if_neg hquote]
          · simp [readUnit, hc]
  | @escape e c text s behind he rest ih =>
      cases fuel with
      | zero => cases hfuel
      | succ fuel =>
          rw [List.length_cons, List.length_cons] at hfuel
          refine readChars_cons rfl ?_ (ih (by omega))
          simp [readUnit, isPlain, he]
  | @unicode a b c d u text s behind hu rest ih =>
      cases fuel with
      | zero => cases hfuel
      | succ fuel =>
          simp only [List.length_cons] at hfuel
          have hletter : escapes.lookup 117 = none := by decide
          refine readChars_cons rfl ?_ (ih (by omega))
          simp [readUnit, isPlain, hletter, hu]

/-! ## Values -/

inductive Tree where
  | null
  | bool (b : Bool)
  | num (n : NumberLiteral)
  | str (s : Text)
  | arr (xs : List Tree)
  | obj (ms : List (Text × Tree))

def isSpace (c : ℕ) : Bool := decide (c = 32 ∨ 9 ≤ c ∧ c ≤ 10 ∨ c = 13)

def skipSpace (text : Text) : Text := text.dropWhile isSpace

/-- Nothing but white space is in front of `rest`. -/
def Spaced (text rest : Text) : Prop := ∃ gap, text = gap ++ rest ∧ ∀ c ∈ gap, isSpace c = true

def words : List (Text × Tree) :=
  [(word "null", .null), (word "true", .bool true), (word "false", .bool false)]

/-- What a text reads as: a value, or what stands between the brackets of one. -/
inductive Part where
  | value (x : Tree)
  | elements (xs : List Tree)
  | members (ms : List (Text × Tree))

/-- `Reads part text rest`: `text` begins with the part, and `rest` is behind it. Elements and
    members end with the closing bracket. -/
inductive Reads : Part → Text → Text → Prop
  | word {w x rest} (hw : (w, x) ∈ words) : Reads (.value x) (w ++ rest) rest
  | num {n : NumberLiteral} {rest} : Reads (.value (.num n)) (n.text ++ rest) rest
  | str {text s rest} (chars : Chars text s rest) : Reads (.value (.str s)) ('"'.toNat :: text) rest
  | emptyArr {text rest} (gap : Spaced text (']'.toNat :: rest)) : Reads (.value (.arr [])) ('['.toNat :: text) rest
  | arr {text xs rest} (elements : Reads (.elements xs) text rest) : Reads (.value (.arr xs)) ('['.toNat :: text) rest
  | emptyObj {text rest} (gap : Spaced text ('}'.toNat :: rest)) : Reads (.value (.obj [])) ('{'.toNat :: text) rest
  | obj {text ms rest} (members : Reads (.members ms) text rest) : Reads (.value (.obj ms)) ('{'.toNat :: text) rest
  | lastElement {text start stop rest x} (gap : Spaced text start) (value : Reads (.value x) start stop)
      (close : Spaced stop (']'.toNat :: rest)) : Reads (.elements [x]) text rest
  | element {text start stop more rest x xs} (gap : Spaced text start) (value : Reads (.value x) start stop)
      (comma : Spaced stop (','.toNat :: more)) (elements : Reads (.elements xs) more rest) :
      Reads (.elements (x :: xs)) text rest
  | lastMember {text name named behind start stop rest k x} (gap : Spaced text ('"'.toNat :: name))
      (chars : Chars name k named) (colon : Spaced named (':'.toNat :: behind)) (gap' : Spaced behind start)
      (value : Reads (.value x) start stop) (close : Spaced stop ('}'.toNat :: rest)) :
      Reads (.members [(k, x)]) text rest
  | member {text name named behind start stop more rest k x ms} (gap : Spaced text ('"'.toNat :: name))
      (chars : Chars name k named) (colon : Spaced named (':'.toNat :: behind)) (gap' : Spaced behind start)
      (value : Reads (.value x) start stop) (comma : Spaced stop (','.toNat :: more))
      (members : Reads (.members ms) more rest) : Reads (.members ((k, x) :: ms)) text rest

/-- The whole text reads as this value. -/
def Document (text : Text) (x : Tree) : Prop :=
  ∃ start stop, Spaced text start ∧ Reads (.value x) start stop ∧ Spaced stop []

/-! ## The parser -/

def readWord (text : Text) : Option (Tree × Text) :=
  words.findSome? (fun (w, x) => if w.isPrefixOf text then some (x, text.drop w.length) else none)

/-- A quoted name and the colon behind it. -/
def readName (text : Text) : Option (Text × Text) := do
  let name ← after '"'.toNat (skipSpace text)
  let (k, named) ← readChars name.length name
  let behind ← after ':'.toNat (skipSpace named)
  some (k, behind)

mutual

def readValue : ℕ → Text → Option (Tree × Text)
  | 0, _ => none
  | _, [] => none
  | fuel + 1, c :: text =>
      if c = '"'.toNat then (readChars text.length text).map (fun (s, rest) => (.str s, rest))
      else if c = '['.toNat then
        match after ']'.toNat (skipSpace text) with
        | some rest => some (.arr [], rest)
        | none => (readElements fuel text).map (fun (xs, rest) => (.arr xs, rest))
      else if c = '{'.toNat then
        match after '}'.toNat (skipSpace text) with
        | some rest => some (.obj [], rest)
        | none => (readMembers fuel text).map (fun (ms, rest) => (.obj ms, rest))
      else
        match readWord (c :: text) with
        | some found => some found
        | none => (readNumber (c :: text)).map (fun (n, rest) => (.num n, rest))

def readElements : ℕ → Text → Option (List Tree × Text)
  | 0, _ => none
  | fuel + 1, text => do
      let (x, stop) ← readValue fuel (skipSpace text)
      match after ']'.toNat (skipSpace stop) with
      | some rest => some ([x], rest)
      | none =>
          let more ← after ','.toNat (skipSpace stop)
          let (xs, rest) ← readElements fuel more
          some (x :: xs, rest)

def readMembers : ℕ → Text → Option (List (Text × Tree) × Text)
  | 0, _ => none
  | fuel + 1, text => do
      let (k, behind) ← readName text
      let (x, stop) ← readValue fuel (skipSpace behind)
      match after '}'.toNat (skipSpace stop) with
      | some rest => some ([(k, x)], rest)
      | none =>
          let more ← after ','.toNat (skipSpace stop)
          let (ms, rest) ← readMembers fuel more
          some ((k, x) :: ms, rest)

end

def parse (text : Text) : Option Tree := do
  let (x, stop) ← readValue (2 * text.length) (skipSpace text)
  if skipSpace stop = [] then some x else none

/-! ### White space -/

theorem spaced_skipSpace (text : Text) : Spaced text (skipSpace text) :=
  ⟨text.takeWhile isSpace, (List.takeWhile_append_dropWhile ..).symm, fun _ hc => List.mem_takeWhile_imp hc⟩

variable {text rest : Text}

theorem skipSpace_eq (h : Spaced text rest) (hrest : rest.head?.any isSpace = false) :
    skipSpace text = rest := by
  obtain ⟨gap, rfl, hgap⟩ := h
  rw [skipSpace, List.dropWhile_append_of_pos hgap]
  cases rest with
  | nil => rfl
  | cons c rest => simp_all

theorem skipSpace_cons {c : ℕ} (h : Spaced text (c :: rest)) (hc : isSpace c = false) :
    skipSpace text = c :: rest := skipSpace_eq h (by simpa using hc)

theorem Spaced.length_le (h : Spaced text rest) : rest.length ≤ text.length := by
  obtain ⟨gap, rfl, -⟩ := h
  simp

/-- No unit of a number is white space or a bracket. -/
theorem isNumberUnit_apart {c : ℕ} (h : isNumberUnit c = true) :
    isSpace c = false ∧ c ≠ '"'.toNat ∧ c ≠ '['.toNat ∧ c ≠ ']'.toNat ∧ c ≠ '{'.toNat := by
  rw [isNumberUnit, Bool.or_eq_true, isDigit, decide_eq_true_eq] at h
  have hunits : ∀ d ∈ word "+-.eE", isSpace d = false ∧ d ≠ '"'.toNat ∧ d ≠ '['.toNat ∧ d ≠ ']'.toNat ∧
      d ≠ '{'.toNat := by decide
  rcases h with h | h
  · simp only [isSpace, decide_eq_false_iff_not, Char.reduceToNat]
    omega
  · exact hunits c (by simpa using h)

theorem Spaced.not_number (h : Spaced text rest)
    (hrest : rest.head?.any isNumberUnit = false) : text.head?.any isNumberUnit = false := by
  obtain ⟨gap, rfl, hgap⟩ := h
  cases gap with
  | nil => exact hrest
  | cons d gap =>
      have hd := hgap d List.mem_cons_self
      by_contra hnumber
      have hnumber : isNumberUnit d = true := by simpa using hnumber
      rw [(isNumberUnit_apart hnumber).1] at hd
      cases hd

/-! ### What the parser reads, the grammar derives -/

theorem reads_of_readWord {x : Tree} (h : readWord text = some (x, rest)) :
    Reads (.value x) text rest := by
  obtain ⟨⟨w, y⟩, hw, hfound⟩ := List.exists_of_findSome?_eq_some h
  simp only at hfound
  split at hfound
  · rename_i hprefix
    cases hfound
    rw [List.isPrefixOf_iff_prefix, List.prefix_iff_eq_append] at hprefix
    rw [← hprefix]
    simpa using Reads.word hw
  · cases hfound

theorem reads_of_readName {text k behind : Text} (h : readName text = some (k, behind)) :
    ∃ name named, Spaced text ('"'.toNat :: name) ∧ Chars name k named ∧ Spaced named (':'.toNat :: behind) := by
  obtain ⟨name, hname, h⟩ := Option.bind_eq_some_iff.mp h
  obtain ⟨⟨k, named⟩, hchars, h⟩ := Option.bind_eq_some_iff.mp h
  obtain ⟨behind, hcolon, heq⟩ := Option.bind_eq_some_iff.mp h
  cases heq
  refine ⟨name, named, ?_, readChars_sound hchars, ?_⟩
  · rw [← after_eq_some.mp hname]
    exact spaced_skipSpace text
  · rw [← after_eq_some.mp hcolon]
    exact spaced_skipSpace named

theorem spaced_of_after {c : ℕ} (h : after c (skipSpace text) = some rest) :
    Spaced text (c :: rest) := by
  rw [← after_eq_some.mp h]
  exact spaced_skipSpace text

theorem read_sound (fuel : ℕ) :
    (∀ text x rest, readValue fuel text = some (x, rest) → Reads (.value x) text rest) ∧
      (∀ text xs rest, readElements fuel text = some (xs, rest) → Reads (.elements xs) text rest) ∧
      ∀ text ms rest, readMembers fuel text = some (ms, rest) → Reads (.members ms) text rest := by
  induction fuel with
  | zero => exact ⟨fun _ _ _ h => by simp [readValue] at h, fun _ _ _ h => by simp [readElements] at h,
      fun _ _ _ h => by simp [readMembers] at h⟩
  | succ fuel ih =>
      obtain ⟨ihValue, ihElements, ihMembers⟩ := ih
      refine ⟨?_, ?_, ?_⟩
      · intro text x rest h
        cases text with
        | nil => simp [readValue] at h
        | cons c text =>
            rw [readValue] at h
            split at h
            · rename_i hc
              obtain ⟨⟨s, behind⟩, hchars, heq⟩ := Option.map_eq_some_iff.mp h
              cases heq
              rw [hc]
              exact .str (readChars_sound hchars)
            · split at h
              · rename_i hc
                rw [hc]
                split at h
                · rename_i hclose
                  cases h
                  exact .emptyArr (spaced_of_after hclose)
                · obtain ⟨⟨xs, behind⟩, helements, heq⟩ := Option.map_eq_some_iff.mp h
                  cases heq
                  exact .arr (ihElements _ _ _ helements)
              · split at h
                · rename_i hc
                  rw [hc]
                  split at h
                  · rename_i hclose
                    cases h
                    exact .emptyObj (spaced_of_after hclose)
                  · obtain ⟨⟨ms, behind⟩, hmembers, heq⟩ := Option.map_eq_some_iff.mp h
                    cases heq
                    exact .obj (ihMembers _ _ _ hmembers)
                · split at h
                  · rename_i hword
                    cases h
                    exact reads_of_readWord hword
                  · obtain ⟨⟨n, behind⟩, hnumber, heq⟩ := Option.map_eq_some_iff.mp h
                    cases heq
                    rw [append_of_readNumber hnumber]
                    exact .num
      · intro text xs rest h
        rw [readElements] at h
        obtain ⟨⟨x, stop⟩, hvalue, h⟩ := Option.bind_eq_some_iff.mp h
        have hgap := spaced_skipSpace text
        have hread := ihValue _ _ _ hvalue
        simp only at h
        split at h
        · rename_i hclose
          cases h
          exact .lastElement hgap hread (spaced_of_after hclose)
        · obtain ⟨more, hcomma, h⟩ := Option.bind_eq_some_iff.mp h
          obtain ⟨⟨ys, behind⟩, helements, heq⟩ := Option.bind_eq_some_iff.mp h
          cases heq
          exact .element hgap hread (spaced_of_after hcomma) (ihElements _ _ _ helements)
      · intro text ms rest h
        rw [readMembers] at h
        obtain ⟨⟨k, behind⟩, hname, h⟩ := Option.bind_eq_some_iff.mp h
        obtain ⟨⟨x, stop⟩, hvalue, h⟩ := Option.bind_eq_some_iff.mp h
        obtain ⟨name, named, hgap, hchars, hcolon⟩ := reads_of_readName hname
        have hgap' := spaced_skipSpace behind
        have hread := ihValue _ _ _ hvalue
        simp only at h
        split at h
        · rename_i hclose
          cases h
          exact .lastMember hgap hchars hcolon hgap' hread (spaced_of_after hclose)
        · obtain ⟨more, hcomma, h⟩ := Option.bind_eq_some_iff.mp h
          obtain ⟨⟨ys, rest'⟩, hmembers, heq⟩ := Option.bind_eq_some_iff.mp h
          cases heq
          exact .member hgap hchars hcolon hgap' hread (spaced_of_after hcomma) (ihMembers _ _ _ hmembers)

/-! ### What the grammar derives, the parser reads -/

theorem Chars.length_lt {text s rest : Text} (h : Chars text s rest) : rest.length < text.length := by
  induction h with
  | close => simp
  | plain _ _ ih => exact ih.trans (Nat.lt_succ_self _)
  | escape _ _ ih =>
      rw [List.length_cons, List.length_cons]
      omega
  | unicode _ _ ih =>
      simp only [List.length_cons]
      omega

theorem words_ne_nil : ∀ p ∈ words, p.1 ≠ [] := by decide

theorem Reads.length_lt {part : Part} (h : Reads part text rest) : rest.length < text.length := by
  induction h with
  | @word w x rest hw =>
      have hlen : 0 < w.length := List.length_pos_iff.mpr (words_ne_nil _ hw)
      rw [List.length_append]
      omega
  | @num n rest =>
      have hlen := List.length_pos_iff.mpr n.text_ne_nil
      rw [List.length_append]
      omega
  | str chars => exact chars.length_lt.trans (Nat.lt_succ_self _)
  | emptyArr gap =>
      have hgap := gap.length_le
      simp only [List.length_cons] at hgap ⊢
      omega
  | emptyObj gap =>
      have hgap := gap.length_le
      simp only [List.length_cons] at hgap ⊢
      omega
  | arr _ ih => exact ih.trans (Nat.lt_succ_self _)
  | obj _ ih => exact ih.trans (Nat.lt_succ_self _)
  | lastElement gap _ close ih =>
      have hgap := gap.length_le
      have hclose := close.length_le
      simp only [List.length_cons] at hclose
      omega
  | element gap _ comma _ ih ih' =>
      have hgap := gap.length_le
      have hcomma := comma.length_le
      simp only [List.length_cons] at hcomma
      omega
  | lastMember gap chars colon gap' _ close ih =>
      have hgap := gap.length_le
      have hchars := chars.length_lt
      have hcolon := colon.length_le
      have hgap' := gap'.length_le
      have hclose := close.length_le
      simp only [List.length_cons] at hgap hcolon hclose
      omega
  | member gap chars colon gap' _ comma _ ih ih' =>
      have hgap := gap.length_le
      have hchars := chars.length_lt
      have hcolon := colon.length_le
      have hgap' := gap'.length_le
      have hcomma := comma.length_le
      simp only [List.length_cons] at hgap hcolon hcomma
      omega

/-- A value begins with something else than white space or a closing bracket. -/
theorem Reads.value_head {x : Tree} (h : Reads (.value x) text rest) :
    ∃ c behind, text = c :: behind ∧ isSpace c = false ∧ c ≠ ']'.toNat := by
  cases h with
  | @word w _ _ hw =>
      have hheads : ∀ p ∈ words, ∃ c behind, p.1 = c :: behind ∧ isSpace c = false ∧ c ≠ ']'.toNat := by
        simp only [words, List.mem_cons, List.not_mem_nil, or_false, forall_eq_or_imp, forall_eq]
        refine ⟨⟨_, _, rfl, ?_⟩, ⟨_, _, rfl, ?_⟩, ⟨_, _, rfl, ?_⟩⟩
        · decide
        · decide
        · decide
      obtain ⟨c, behind, heq, hc⟩ := hheads _ hw
      simp only at heq
      exact ⟨c, behind ++ rest, by rw [heq, List.cons_append], hc⟩
  | @num n _ =>
      obtain ⟨c, behind, heq⟩ := List.exists_cons_of_ne_nil n.text_ne_nil
      have hc := isNumberUnit_apart (n.units c (by rw [heq]; exact List.mem_cons_self))
      exact ⟨c, behind ++ rest, by rw [heq, List.cons_append], hc.1, hc.2.2.2.1⟩
  | str => exact ⟨_, _, rfl, by decide, by decide⟩
  | emptyArr => exact ⟨_, _, rfl, by decide, by decide⟩
  | arr => exact ⟨_, _, rfl, by decide, by decide⟩
  | emptyObj => exact ⟨_, _, rfl, by decide, by decide⟩
  | obj => exact ⟨_, _, rfl, by decide, by decide⟩

/-- What it means that the parser finds the part, with enough fuel. -/
def Found : Part → Text → Text → Prop
  | .value x, text, rest =>
      rest.head?.any isNumberUnit = false → ∀ fuel, 2 * text.length ≤ fuel → readValue fuel text = some (x, rest)
  | .elements xs, text, rest => ∀ fuel, 2 * text.length + 1 ≤ fuel → readElements fuel text = some (xs, rest)
  | .members ms, text, rest => ∀ fuel, 2 * text.length + 1 ≤ fuel → readMembers fuel text = some (ms, rest)

theorem after_skipSpace {c : ℕ} (h : Spaced text (c :: rest)) (hc : isSpace c = false) :
    after c (skipSpace text) = some rest := by
  rw [skipSpace_cons h hc, after_eq_some]

theorem after_skipSpace_none {c d : ℕ} (h : Spaced text (d :: rest)) (hd : isSpace d = false)
    (hne : d ≠ c) : after c (skipSpace text) = none := by
  rw [skipSpace_cons h hd, after, if_neg hne]

theorem skipSpace_value {x : Tree} {text start stop : Text} (h : Spaced text start)
    (hvalue : Reads (.value x) start stop) : skipSpace text = start := by
  obtain ⟨c, behind, rfl, hc, -⟩ := hvalue.value_head
  exact skipSpace_cons h hc

/-- Elements and members do not begin with the bracket they end with. -/
theorem Reads.elements_not_closed {xs : List Tree} (h : Reads (.elements xs) text rest) :
    after ']'.toNat (skipSpace text) = none := by
  have hfirst : ∃ x start stop, Spaced text start ∧ Reads (.value x) start stop := by
    cases h with
    | lastElement gap value _ => exact ⟨_, _, _, gap, value⟩
    | element gap value _ _ => exact ⟨_, _, _, gap, value⟩
  obtain ⟨x, start, stop, gap, value⟩ := hfirst
  obtain ⟨c, behind, rfl, hspace, hne⟩ := value.value_head
  exact after_skipSpace_none gap hspace hne

theorem Reads.members_not_closed {ms : List (Text × Tree)} (h : Reads (.members ms) text rest) :
    after '}'.toNat (skipSpace text) = none := by
  cases h with
  | lastMember gap => exact after_skipSpace_none gap (by decide) (by decide)
  | member gap => exact after_skipSpace_none gap (by decide) (by decide)

theorem readName_complete {text name named behind k : Text} (gap : Spaced text ('"'.toNat :: name))
    (chars : Chars name k named) (colon : Spaced named (':'.toNat :: behind)) :
    readName text = some (k, behind) := by
  have hcolon := after_skipSpace colon (by decide)
  rw [readName, after_skipSpace gap (by decide)]
  simp only [Option.bind_eq_bind, Option.bind_some, readChars_complete chars le_rfl, hcolon]

theorem readValue_word {fuel : ℕ} {w rest : Text} {x : Tree} (hw : (w, x) ∈ words) :
    readValue (fuel + 1) (w ++ rest) = some (x, rest) := by
  simp only [words, List.mem_cons, List.not_mem_nil, or_false, Prod.mk.injEq] at hw
  rcases hw with ⟨rfl, rfl⟩ | ⟨rfl, rfl⟩ | ⟨rfl, rfl⟩
  · rfl
  · rfl
  · rfl

/-- No number begins like a word. -/
theorem readWord_number {c : ℕ} {text : Text} (hc : isNumberUnit c = true) : readWord (c :: text) = none := by
  rw [readWord, List.findSome?_eq_none_iff]
  intro p hp
  have hheads : ∀ q ∈ words, ∃ d w, q.1 = d :: w ∧ isNumberUnit d = false := by
    simp only [words, List.mem_cons, List.not_mem_nil, or_false, forall_eq_or_imp, forall_eq]
    refine ⟨⟨_, _, rfl, ?_⟩, ⟨_, _, rfl, ?_⟩, ⟨_, _, rfl, ?_⟩⟩
    · decide
    · decide
    · decide
  obtain ⟨d, w, heq, hd⟩ := hheads p hp
  have hne : d ≠ c := by
    rintro rfl
    rw [hc] at hd
    cases hd
  simp [heq, hne]

theorem readValue_number {fuel : ℕ} (n : NumberLiteral) {rest : Text}
    (hrest : rest.head?.any isNumberUnit = false) : readValue (fuel + 1) (n.text ++ rest) = some (.num n, rest) := by
  have hnumber := readNumber_append n hrest
  obtain ⟨c, behind, heq⟩ := List.exists_cons_of_ne_nil n.text_ne_nil
  have hc := n.units c (by rw [heq]; exact List.mem_cons_self)
  obtain ⟨-, hquote, hbracket, -, hbrace⟩ := isNumberUnit_apart hc
  rw [heq, List.cons_append] at hnumber ⊢
  rw [readValue, if_neg hquote, if_neg hbracket, if_neg hbrace, readWord_number hc, hnumber]
  rfl

theorem Reads.found {part : Part} (h : Reads part text rest) : Found part text rest := by
  induction h with
  | @word w x rest hw =>
      intro _ fuel hfuel
      have hlen : 0 < w.length := List.length_pos_iff.mpr (words_ne_nil _ hw)
      rw [List.length_append] at hfuel
      cases fuel with
      | zero => omega
      | succ fuel => exact readValue_word hw
  | @num n rest =>
      intro hrest fuel hfuel
      have hlen := List.length_pos_iff.mpr n.text_ne_nil
      rw [List.length_append] at hfuel
      cases fuel with
      | zero => omega
      | succ fuel => exact readValue_number n hrest
  | @str text s rest chars =>
      intro _ fuel hfuel
      cases fuel with
      | zero => simp at hfuel
      | succ fuel => rw [readValue, if_pos rfl, readChars_complete chars le_rfl, Option.map_some]
  | @emptyArr text rest gap =>
      intro _ fuel hfuel
      cases fuel with
      | zero => simp at hfuel
      | succ fuel => rw [readValue, if_neg (by decide), if_pos rfl, after_skipSpace gap (by decide)]
  | @arr text xs rest elements ih =>
      intro _ fuel hfuel
      cases fuel with
      | zero => simp at hfuel
      | succ fuel =>
          rw [List.length_cons] at hfuel
          rw [readValue, if_neg (by decide), if_pos rfl, elements.elements_not_closed]
          simp only
          rw [ih fuel (by omega), Option.map_some]
  | @emptyObj text rest gap =>
      intro _ fuel hfuel
      cases fuel with
      | zero => simp at hfuel
      | succ fuel =>
          rw [readValue, if_neg (by decide), if_neg (by decide), if_pos rfl, after_skipSpace gap (by decide)]
  | @obj text ms rest members ih =>
      intro _ fuel hfuel
      cases fuel with
      | zero => simp at hfuel
      | succ fuel =>
          rw [List.length_cons] at hfuel
          rw [readValue, if_neg (by decide), if_neg (by decide), if_pos rfl, members.members_not_closed]
          simp only
          rw [ih fuel (by omega), Option.map_some]
  | @lastElement text start stop rest x gap value close ih =>
      intro fuel hfuel
      cases fuel with
      | zero => simp at hfuel
      | succ fuel =>
          have hstart := gap.length_le
          have hvalue := ih (close.not_number rfl) fuel (by omega)
          rw [readElements, skipSpace_value gap value, hvalue]
          simp only [Option.bind_eq_bind, Option.bind_some]
          rw [after_skipSpace close (by decide)]
  | @element text start stop more rest x xs gap value comma elements ih ih' =>
      intro fuel hfuel
      cases fuel with
      | zero => simp at hfuel
      | succ fuel =>
          have hstart := gap.length_le
          have hstop := value.length_lt
          have hmore := comma.length_le
          rw [List.length_cons] at hmore
          have hvalue := ih (comma.not_number rfl) fuel (by omega)
          rw [readElements, skipSpace_value gap value, hvalue]
          simp only [Option.bind_eq_bind, Option.bind_some]
          rw [after_skipSpace_none comma (by decide) (by decide), after_skipSpace comma (by decide)]
          simp only [Option.bind_some]
          rw [ih' fuel (by omega)]
          rfl
  | @lastMember text name named behind start stop rest k x gap chars colon gap' value close ih =>
      intro fuel hfuel
      cases fuel with
      | zero => simp at hfuel
      | succ fuel =>
          have hname := gap.length_le
          have hnamed := chars.length_lt
          have hbehind := colon.length_le
          have hstart := gap'.length_le
          rw [List.length_cons] at hname hbehind
          have hvalue := ih (close.not_number rfl) fuel (by omega)
          rw [readMembers, readName_complete gap chars colon]
          simp only [Option.bind_eq_bind, Option.bind_some]
          rw [skipSpace_value gap' value, hvalue]
          simp only [Option.bind_some]
          rw [after_skipSpace close (by decide)]
  | @member text name named behind start stop more rest k x ms gap chars colon gap' value comma members ih ih' =>
      intro fuel hfuel
      cases fuel with
      | zero => simp at hfuel
      | succ fuel =>
          have hname := gap.length_le
          have hnamed := chars.length_lt
          have hbehind := colon.length_le
          have hstart := gap'.length_le
          have hstop := value.length_lt
          have hmore := comma.length_le
          rw [List.length_cons] at hname hbehind hmore
          have hvalue := ih (comma.not_number rfl) fuel (by omega)
          rw [readMembers, readName_complete gap chars colon]
          simp only [Option.bind_eq_bind, Option.bind_some]
          rw [skipSpace_value gap' value, hvalue]
          simp only [Option.bind_some]
          rw [after_skipSpace_none comma (by decide) (by decide), after_skipSpace comma (by decide)]
          simp only [Option.bind_some]
          rw [ih' fuel (by omega)]
          rfl

/-- The parser reads what the grammar derives, and nothing else. -/
theorem parse_iff {text : Text} {x : Tree} : parse text = some x ↔ Document text x := by
  constructor
  · intro h
    obtain ⟨⟨y, stop⟩, hvalue, h⟩ := Option.bind_eq_some_iff.mp h
    simp only at h
    split at h
    · rename_i hstop
      cases h
      refine ⟨skipSpace text, stop, spaced_skipSpace text, (read_sound _).1 _ _ _ hvalue, ?_⟩
      rw [← hstop]
      exact spaced_skipSpace stop
    · cases h
  · rintro ⟨start, stop, gap, value, gap'⟩
    have hstart := gap.length_le
    rw [parse, skipSpace_value gap value, value.found (gap'.not_number rfl) _ (by omega)]
    simp [skipSpace_eq gap' rfl]

/-- A text reads as one value at most. -/
theorem Document.unique {text : Text} {x y : Tree} (hx : Document text x) (hy : Document text y) : x = y := by
  have h := parse_iff.mpr hx
  rw [parse_iff.mpr hy] at h
  exact (Option.some.inj h).symm

end Elpis.Lib.JsonText
