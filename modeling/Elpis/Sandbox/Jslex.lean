import Mathlib.Tactic

/-!
# Blanking literals and comments

`src/lib/jslex.ts`, on texts as lists of code units. The lexer reads one unit at a time and looks
at the next; what it reads in pairs it reads as the first unit and a `second` one.
-/

namespace Elpis.Jslex

abbrev Text := List ℕ

inductive Mode where
  | code | single | double
  /-- The depth of templates, and of braces in their interpolations. -/
  | template (templateDepth braceDepth : ℕ)
  | lineComment | blockComment
  /-- The second unit of a pair. -/
  | second (behind : Mode)
deriving DecidableEq, Repr

def blank (c : ℕ) : ℕ := if c = '\n'.toNat then '\n'.toNat else ' '.toNat

/-- In a string of this quote. -/
def quoted (mode : Mode) (quote c : ℕ) : ℕ × Mode :=
  if c = '\\'.toNat then (blank c, .second mode)
  else if c = quote then (c, .code)
  else if c = '\n'.toNat then (c, .code)
  else (blank c, mode)

def inTemplate (templateDepth braceDepth c : ℕ) (next : Option ℕ) : ℕ × Mode :=
  if c = '\\'.toNat then (blank c, .second (.template templateDepth braceDepth))
  else if c = '`'.toNat then
    if templateDepth - 1 = 0 then (c, .code) else (blank c, .template (templateDepth - 1) braceDepth)
  else if c = '$'.toNat ∧ next = some '{'.toNat then
    (blank c, .second (.template templateDepth (braceDepth + 1)))
  -- a backtick in an interpolation never comes here: it has closed the template above
  else if 0 < braceDepth ∧ c = '{'.toNat then (blank c, .template templateDepth (braceDepth + 1))
  else if 0 < braceDepth ∧ c = '}'.toNat then (blank c, .template templateDepth (braceDepth - 1))
  else (blank c, .template templateDepth braceDepth)

/-- What one unit becomes, and the mode behind it. -/
def lex (mode : Mode) (c : ℕ) (next : Option ℕ) : ℕ × Mode :=
  match mode with
  | .code =>
      if c = '/'.toNat ∧ next = some '/'.toNat then (' '.toNat, .second .lineComment)
      else if c = '/'.toNat ∧ next = some '*'.toNat then (' '.toNat, .second .blockComment)
      else if c = '\x27'.toNat then (c, .single)
      else if c = '"'.toNat then (c, .double)
      else if c = '`'.toNat then (c, .template 1 0)
      else (c, .code)
  | .single => quoted .single '\x27'.toNat c
  | .double => quoted .double '"'.toNat c
  | .template templateDepth braceDepth => inTemplate templateDepth braceDepth c next
  | .lineComment => if c = '\n'.toNat then (c, .code) else (blank c, .lineComment)
  | .blockComment =>
      if c = '*'.toNat ∧ next = some '/'.toNat then (blank c, .second .code)
      else (blank c, .blockComment)
  | .second behind => (blank c, behind)

def blankFrom : Mode → Text → Text
  | _, [] => []
  | mode, c :: cs => (lex mode c cs.head?).1 :: blankFrom (lex mode c cs.head?).2 cs

def blankLiterals (code : Text) : Text := blankFrom .code code

/-! ## A text in two parts -/

/-- The mode behind a text, where this unit comes next. -/
def modeBehind : Mode → Text → Option ℕ → Mode
  | mode, [], _ => mode
  | mode, c :: cs, next => modeBehind (lex mode c (cs.head?.or next)).2 cs next

/-- What a text becomes, where this unit comes next. -/
def blankBefore : Mode → Text → Option ℕ → Text
  | _, [], _ => []
  | mode, c :: cs, next =>
      (lex mode c (cs.head?.or next)).1 :: blankBefore (lex mode c (cs.head?.or next)).2 cs next

theorem blankFrom_append (mode : Mode) (a x : Text) :
    blankFrom mode (a ++ x) = blankBefore mode a x.head? ++ blankFrom (modeBehind mode a x.head?) x := by
  induction a generalizing mode with
  | nil => rfl
  | cons c cs ih =>
      have hhead : (cs ++ x).head? = cs.head?.or x.head? := List.head?_append
      rw [List.cons_append, blankFrom, hhead, ih]
      rfl

theorem length_blankFrom (mode : Mode) (cs : Text) : (blankFrom mode cs).length = cs.length := by
  induction cs generalizing mode with
  | nil => rfl
  | cons c cs ih => simp [blankFrom, ih]

theorem length_blankBefore (mode : Mode) (cs : Text) (next : Option ℕ) :
    (blankBefore mode cs next).length = cs.length := by
  induction cs generalizing mode with
  | nil => rfl
  | cons c cs ih => simp [blankBefore, ih]

theorem blankBefore_append (mode : Mode) (a b : Text) (next : Option ℕ) :
    blankBefore mode (a ++ b) next =
      blankBefore mode a (b.head?.or next) ++ blankBefore (modeBehind mode a (b.head?.or next)) b next := by
  induction a generalizing mode with
  | nil => rfl
  | cons c cs ih =>
      have hhead : (cs ++ b).head?.or next = cs.head?.or (b.head?.or next) := by
        rw [List.head?_append, Option.or_assoc]
      rw [List.cons_append, blankBefore, hhead, ih]
      rfl

theorem modeBehind_append (mode : Mode) (a b : Text) (next : Option ℕ) :
    modeBehind mode (a ++ b) next = modeBehind (modeBehind mode a (b.head?.or next)) b next := by
  induction a generalizing mode with
  | nil => rfl
  | cons c cs ih =>
      have hhead : (cs ++ b).head?.or next = cs.head?.or (b.head?.or next) := by
        rw [List.head?_append, Option.or_assoc]
      rw [List.cons_append, modeBehind, hhead, ih]
      rfl

/-- A unit that no pair ends with. -/
def Single (c : ℕ) : Prop := c ≠ '/'.toNat ∧ c ≠ '*'.toNat ∧ c ≠ '{'.toNat

theorem lex_next {x y : ℕ} (hx : Single x) (hy : Single y) (mode : Mode) (c : ℕ) :
    lex mode c (some x) = lex mode c (some y) := by
  simp only [Single, ne_eq, Char.reduceToNat] at hx hy
  cases mode <;> simp [lex, inTemplate, hx, hy]

theorem blankBefore_next {x y : ℕ} (hx : Single x) (hy : Single y) (mode : Mode) (cs : Text) :
    blankBefore mode cs (some x) = blankBefore mode cs (some y) ∧
      modeBehind mode cs (some x) = modeBehind mode cs (some y) := by
  induction cs generalizing mode with
  | nil => exact ⟨rfl, rfl⟩
  | cons c cs ih =>
      have hlex : lex mode c (cs.head?.or (some x)) = lex mode c (cs.head?.or (some y)) := by
        cases cs with
        | nil => exact lex_next hx hy mode c
        | cons d ds => rfl
      rw [blankBefore, blankBefore, modeBehind, modeBehind, hlex, (ih _).1, (ih _).2]
      exact ⟨rfl, rfl⟩

/-- Only code leaves a `<`. -/
theorem mode_of_lt {mode : Mode} {c : ℕ} {next : Option ℕ} (h : (lex mode c next).1 = '<'.toNat) :
    mode = .code ∧ c = '<'.toNat := by
  cases mode <;> simp only [lex, quoted, inTemplate, blank] at h <;> split_ifs at h <;> simp_all

/-- Where a `<` is left, the text before it is read for itself and ends in code. -/
theorem blankLiterals_lt {code u v : Text} (h : blankLiterals code = u ++ '<'.toNat :: v) :
    ∃ a x, code = a ++ '<'.toNat :: x ∧ a.length = u.length ∧
      blankBefore .code a (some '<'.toNat) = u ∧ modeBehind .code a (some '<'.toNat) = .code := by
  have hsplit : code = code.take u.length ++ code.drop u.length := (List.take_append_drop ..).symm
  have hle : u.length ≤ code.length := by
    have hlen := congrArg List.length h
    rw [blankLiterals, length_blankFrom, List.length_append] at hlen
    omega
  have hlen : (code.take u.length).length = u.length := List.length_take_of_le hle
  rw [hsplit, blankLiterals, blankFrom_append] at h
  obtain ⟨hu, hrest⟩ := List.append_inj h (by rw [length_blankBefore, hlen])
  cases hx : code.drop u.length with
  | nil =>
      rw [hx] at hrest
      cases hrest
  | cons c x =>
      rw [hx] at hrest hu
      obtain ⟨hmode, rfl⟩ := mode_of_lt (List.head_eq_of_cons_eq hrest)
      refine ⟨code.take u.length, x, ?_, hlen, hu, hmode⟩
      rw [← hx, ← hsplit]

/-! ## Inside a double-quoted string -/

/-- The text leaves a double-quoted string open, whatever follows, and is all blanked. -/
def Stays (cs : Text) : Prop :=
  ∀ next, modeBehind .double cs next = .double ∧ ∀ c ∈ blankBefore .double cs next, c = ' '.toNat

theorem stays_nil : Stays [] := fun _ => ⟨rfl, fun _ h => absurd h List.not_mem_nil⟩

theorem Stays.append {a b : Text} (ha : Stays a) (hb : Stays b) : Stays (a ++ b) := by
  intro next
  obtain ⟨hmode, hblank⟩ := ha (b.head?.or next)
  rw [modeBehind_append, blankBefore_append, hmode]
  refine ⟨(hb next).1, fun c hc => ?_⟩
  rcases List.mem_append.mp hc with hc | hc
  · exact hblank c hc
  · exact (hb next).2 c hc

theorem stays_plain {c : ℕ} (hquote : c ≠ '"'.toNat) (hescape : c ≠ '\\'.toNat) (hline : c ≠ '\n'.toNat) :
    Stays [c] := by
  intro next
  simp only [Char.reduceToNat, ne_eq] at hquote hescape hline
  simp [modeBehind, blankBefore, lex, quoted, blank, hquote, hescape, hline]

theorem stays_escape {c : ℕ} (hline : c ≠ '\n'.toNat) : Stays ['\\'.toNat, c] := by
  intro next
  simp only [Char.reduceToNat, ne_eq] at hline
  simp [modeBehind, blankBefore, lex, quoted, blank, hline]

/-- A string of such text is a literal for itself. -/
theorem literal_of_stays {cs : Text} (h : Stays cs) (next : Option ℕ) :
    modeBehind .code ('"'.toNat :: (cs ++ ['"'.toNat])) next = .code ∧
      blankBefore .code ('"'.toNat :: (cs ++ ['"'.toNat])) next =
        '"'.toNat :: (List.replicate cs.length ' '.toNat ++ ['"'.toNat]) := by
  have hopen : ∀ after, lex .code '"'.toNat after = ('"'.toNat, .double) := by
    intro after
    simp [lex]
  obtain ⟨hmode, hgap⟩ := h (some '"'.toNat)
  have hblank : blankBefore .double cs (some '"'.toNat) = List.replicate cs.length ' '.toNat :=
    List.eq_replicate_iff.mpr ⟨length_blankBefore .., hgap⟩
  rw [modeBehind, blankBefore, hopen, modeBehind_append, blankBefore_append]
  simp only [List.head?_cons, Option.some_or]
  rw [hmode, hblank]
  exact ⟨rfl, rfl⟩

end Elpis.Jslex
