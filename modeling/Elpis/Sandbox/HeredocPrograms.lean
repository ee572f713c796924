import Elpis.Lib.JsonPrint
import Elpis.Lib.Tags
import Elpis.Sandbox.HeredocsAgree

/-!
# Programs with heredoc blocks

What `expandHeredocs` does with a program of well-formed blocks: each block is found where it
stands, its body becomes a literal, and the loop goes on behind the terminator's tag. It loses what
is behind a tag on the opener's line and a `\r` that ends the terminator's line, and it needs one
round more than there are blocks.
-/

namespace Elpis.Heredoc

open Elpis.Js Elpis.Jslex
open Elpis.Lib.JsonText (Chars readChars readChars_complete quoteUnits quote chars_quoteUnits)

/-! ## Programs -/

/-- `[A-Za-z_][A-Za-z0-9_]*`. -/
def isTag : Text → Bool
  | [] => false
  | c :: cs => isTagStart c && cs.all isTagPart

/-- White space and comments that end on the line. -/
structure Aside (a : Text) : Prop where
  line : ∀ c ∈ a, isLineTerminator c = false
  blanked : ∀ c ∈ blankBefore .code a (some '\n'.toNat), isGap c = true
  ends : modeBehind .code a (some '\n'.toNat) = .code ∨ modeBehind .code a (some '\n'.toNat) = .lineComment

/-- The text begins with a line that the tag terminates. -/
def Terminates (tag text : Text) : Prop :=
  ∃ gap behind, text = gap ++ (tag ++ behind) ∧ (∀ c ∈ gap, isGap c = true) ∧ behind.head?.any isTagPart = false

/-- A block from its opener to the tag of its terminator. -/
structure HeredocBlock where
  tag : Text
  /-- What is behind the tag on the opener's line. -/
  aside : Text
  /-- Whether that line ends with `\r\n`. -/
  crlf : Bool
  body : Text
  indent : Text
  tag_name : isTag tag = true
  aside_blank : Aside aside
  body_lines : body.getLast?.all isLineTerminator = true
  body_open : ∀ u v, body = u ++ v → u.getLast?.all isLineTerminator = true → v ≠ [] → ¬Terminates tag v
  indent_gap : ∀ c ∈ indent, isGap c = true

namespace HeredocBlock

def eol (b : HeredocBlock) : Text := if b.crlf then ['\r'.toNat, '\n'.toNat] else ['\n'.toNat]

def opening (b : HeredocBlock) : Text := ['<'.toNat, '<'.toNat, '<'.toNat] ++ (b.tag ++ (b.aside ++ b.eol))

def text (b : HeredocBlock) : Text := b.opening ++ (b.body ++ (b.indent ++ b.tag))

end HeredocBlock

variable {parts : List (HeredocBlock × Text)} {c : ℕ} {n : ℕ} {mode : Mode}

/-- The text in front of the first block, and each block with the text behind it. -/
def programText (p : Text) : List (HeredocBlock × Text) → Text
  | [] => p
  | (b, q) :: parts => p ++ (b.text ++ programText q parts)

/-- No opener is in the text, and a block behind it is in no literal and no comment. -/
def Outside (p : Text) : Prop :=
  modeBehind .code p (some '<'.toNat) = .code ∧ opener (blankBefore .code p (some '<'.toNat)) = none

def WellFormed (p : Text) : List (HeredocBlock × Text) → Prop
  | [] => opener (blankLiterals p) = none
  | (_, q) :: parts => Outside p ∧ (programText q parts).head?.any isTagPart = false ∧ WellFormed q parts

instance (p : Text) : Decidable (Outside p) := inferInstanceAs (Decidable (_ ∧ _))

instance decidableWellFormed : ∀ p parts, Decidable (WellFormed p parts)
  | p, [] => inferInstanceAs (Decidable (opener (blankLiterals p) = none))
  | _, (_, q) :: parts =>
      have := decidableWellFormed q parts
      inferInstanceAs (Decidable (_ ∧ _ ∧ _))

/-- A string literal of this value. -/
def Literal (literal value : Text) : Prop := ∃ text, literal = '"'.toNat :: text ∧ Chars text value []

/-- Each block is replaced by a literal of its body, and everything else is there, in its order. -/
inductive Expands : Text → List (HeredocBlock × Text) → Text → Prop
  | last (p) : Expands p [] p
  | block (p b) {q parts literal code} (value : Literal literal b.body) (rest : Expands q parts code) :
      Expands p ((b, q) :: parts) (p ++ (literal ++ (b.aside ++ code)))

/-! ## The opener's line -/

/-- The modes of white space and comments. -/
def Quiet : Mode → Prop
  | .code | .lineComment | .blockComment | .second .code | .second .lineComment | .second .blockComment => True
  | _ => False

theorem lex_plain (next : Option ℕ)
    (hc : c ≠ '/'.toNat ∧ c ≠ '\x27'.toNat ∧ c ≠ '"'.toNat ∧ c ≠ '`'.toNat) : lex .code c next = (c, .code) := by
  simp only [Char.reduceToNat, ne_eq] at hc
  simp [lex, hc]

theorem lex_quote (next : Option ℕ) : lex .code '"'.toNat next = ('"'.toNat, .double) := by
  simp [lex]

theorem isTagPart_plain (h : isTagPart c = true) :
    c ≠ '/'.toNat ∧ c ≠ '\x27'.toNat ∧ c ≠ '"'.toNat ∧ c ≠ '`'.toNat := by
  simp only [isTagPart, isTagStart, Bool.or_eq_true, decide_eq_true_eq] at h
  simp only [Char.reduceToNat]
  omega

theorem gap_plain (h : isGap c = true) :
    c ≠ '/'.toNat ∧ c ≠ '\x27'.toNat ∧ c ≠ '"'.toNat ∧ c ≠ '`'.toNat := by
  simp only [isGap, decide_eq_true_eq, Char.reduceToNat] at h
  simp only [Char.reduceToNat]
  omega

/-- Only white space and comments become white space. -/
theorem quiet_lex {next : Option ℕ} (hmode : Quiet mode)
    (h : isGap (lex mode c next).1 = true) : Quiet (lex mode c next).2 := by
  cases mode with
  | code =>
      simp only [lex] at h ⊢
      split_ifs at h ⊢ <;> simp_all [Quiet, isGap]
  | lineComment =>
      simp only [lex] at h ⊢
      split_ifs at h ⊢ <;> simp_all [Quiet, isGap]
  | blockComment =>
      simp only [lex] at h ⊢
      split_ifs at h ⊢ <;> simp_all [Quiet, isGap]
  | second behind => cases behind <;> simp_all [Quiet, lex]
  | single => cases hmode
  | double => cases hmode
  | template => cases hmode

/-- The last unit of an aside does not pair with what comes next. -/
theorem aside_last (hmode : Quiet mode)
    (hblank : isGap (lex mode c (some '\n'.toNat)).1 = true)
    (hends : (lex mode c (some '\n'.toNat)).2 = .code ∨ (lex mode c (some '\n'.toNat)).2 = .lineComment)
    (next : Option ℕ) : lex mode c next = lex mode c (some '\n'.toNat) := by
  cases mode with
  | code =>
      have hgap : isGap c = true := by
        by_contra hc
        simp only [lex] at hblank
        split_ifs at hblank <;> simp_all [isGap]
      rw [lex_plain next (gap_plain hgap), lex_plain _ (gap_plain hgap)]
  | lineComment => rfl
  | blockComment =>
      exfalso
      simp only [lex] at hends
      split_ifs at hends <;> simp_all
  | second behind => rfl
  | single => cases hmode
  | double => cases hmode
  | template => cases hmode

theorem aside_next {a : Text} (hmode : Quiet mode)
    (hblank : ∀ c ∈ blankBefore mode a (some '\n'.toNat), isGap c = true)
    (hends : modeBehind mode a (some '\n'.toNat) = .code ∨ modeBehind mode a (some '\n'.toNat) = .lineComment)
    (next : Option ℕ) :
    blankBefore mode a next = blankBefore mode a (some '\n'.toNat) ∧
      modeBehind mode a next = modeBehind mode a (some '\n'.toNat) := by
  induction a generalizing mode with
  | nil => exact ⟨rfl, rfl⟩
  | cons c cs ih =>
      rw [blankBefore] at hblank
      rw [modeBehind] at hends
      have hhead := hblank _ List.mem_cons_self
      have hlex : lex mode c (cs.head?.or next) = lex mode c (cs.head?.or (some '\n'.toNat)) := by
        cases cs with
        | nil => exact aside_last hmode hhead hends next
        | cons d cs => rfl
      obtain ⟨hrest, hmodes⟩ := ih (quiet_lex hmode hhead) (fun d hd => hblank d (List.mem_cons_of_mem _ hd)) hends
      rw [blankBefore, blankBefore, modeBehind, modeBehind, hlex, hrest, hmodes]
      exact ⟨rfl, rfl⟩

theorem Aside.next {a : Text} (h : Aside a) (next : Option ℕ) :
    blankBefore .code a next = blankBefore .code a (some '\n'.toNat) ∧
      modeBehind .code a next = modeBehind .code a (some '\n'.toNat) :=
  aside_next (show Quiet .code from trivial) h.blanked h.ends next

theorem blankFrom_plain {cs : Text} (hcs : ∀ c ∈ cs, isTagPart c = true ∨ c = '<'.toNat) (x : Text) :
    blankFrom .code (cs ++ x) = cs ++ blankFrom .code x := by
  induction cs with
  | nil => rfl
  | cons c cs ih =>
      have hc : c ≠ '/'.toNat ∧ c ≠ '\x27'.toNat ∧ c ≠ '"'.toNat ∧ c ≠ '`'.toNat := by
        rcases hcs c List.mem_cons_self with hc | rfl
        · exact isTagPart_plain hc
        · decide
      rw [List.cons_append, blankFrom, lex_plain _ hc, ih (fun d hd => hcs d (List.mem_cons_of_mem _ hd))]
      rfl

/-- The line's end, behind its aside, and what it is blanked to. -/
theorem blankFrom_eol (b : HeredocBlock) (hmode : mode = .code ∨ mode = .lineComment) (x : Text) :
    ∃ gap mark, blankFrom mode (b.eol ++ x) = gap ++ (mark ++ blankFrom .code x) ∧ (∀ c ∈ gap, isGap c = true) ∧
      (mark = ['\n'.toNat] ∨ mark = ['\r'.toNat, '\n'.toNat]) ∧ gap.length + mark.length = b.eol.length := by
  rw [HeredocBlock.eol]
  split
  · rcases hmode with rfl | rfl
    · exact ⟨[], ['\r'.toNat, '\n'.toNat], rfl, by simp, Or.inr rfl, rfl⟩
    · exact ⟨[' '.toNat], ['\n'.toNat], rfl, by simp [isGap], Or.inl rfl, rfl⟩
  · rcases hmode with rfl | rfl
    · exact ⟨[], ['\n'.toNat], rfl, by simp, Or.inl rfl, rfl⟩
    · exact ⟨[], ['\n'.toNat], rfl, by simp, Or.inl rfl, rfl⟩

theorem isTag_cons {tag : Text} (h : isTag tag = true) :
    ∃ c cs, tag = c :: cs ∧ isTagStart c = true ∧ ∀ d ∈ cs, isTagPart d = true := by
  cases tag with
  | nil => cases h
  | cons c cs =>
      rw [isTag, Bool.and_eq_true, List.all_eq_true] at h
      exact ⟨c, cs, rfl, h.1, h.2⟩

theorem isTag_parts {tag : Text} (h : isTag tag = true) : ∀ c ∈ tag, isTagPart c = true := by
  obtain ⟨c, cs, rfl, hc, hcs⟩ := isTag_cons h
  intro d hd
  rcases List.mem_cons.mp hd with rfl | hd
  · rw [isTagPart, hc, Bool.true_or]
  · exact hcs d hd

theorem opening_blanked (b : HeredocBlock) (x : Text) :
    ∃ gap mark, blankFrom .code (b.opening ++ x) =
        60 :: 60 :: 60 :: (b.tag ++ (gap ++ (mark ++ blankFrom .code x))) ∧
      (∀ c ∈ gap, isGap c = true) ∧ (mark = ['\n'.toNat] ∨ mark = ['\r'.toNat, '\n'.toNat]) ∧
      3 + (b.tag.length + (gap.length + mark.length)) = b.opening.length := by
  obtain ⟨gap, mark, heol, hgap, hmark, hlen⟩ := blankFrom_eol b b.aside_blank.ends x
  obtain ⟨hblank, hmode⟩ := b.aside_blank.next (b.eol ++ x).head?
  refine ⟨blankBefore .code b.aside (some '\n'.toNat) ++ gap, mark, ?_, ?_, hmark, ?_⟩
  · have hplain : ∀ c ∈ ['<'.toNat, '<'.toNat, '<'.toNat] ++ b.tag, isTagPart c = true ∨ c = '<'.toNat := by
      intro c hc
      rcases List.mem_append.mp hc with hc | hc
      · right
        simpa using hc
      · exact Or.inl (isTag_parts b.tag_name c hc)
    rw [HeredocBlock.opening, ← List.append_assoc, List.append_assoc, blankFrom_plain hplain, List.append_assoc,
      List.append_assoc b.aside, blankFrom_append, hblank, hmode, heol]
    simp
  · intro c hc
    rcases List.mem_append.mp hc with hc | hc
    · exact b.aside_blank.blanked c hc
    · exact hgap c hc
  · rw [HeredocBlock.opening, List.length_append, List.length_append, List.length_append, List.length_append,
      length_blankBefore, ← hlen]
    simp only [List.length_cons, List.length_nil]
    omega

theorem openerAt_opening {tag gap mark : Text} (htag : isTag tag = true) (hgap : ∀ c ∈ gap, isGap c = true)
    (hmark : mark = ['\n'.toNat] ∨ mark = ['\r'.toNat, '\n'.toNat]) (x : Text) :
    openerAt (60 :: 60 :: 60 :: (tag ++ (gap ++ (mark ++ x)))) = some (tag, x) := by
  obtain ⟨c, cs, rfl, hc, hcs⟩ := isTag_cons htag
  have hmarkx : ∀ d ∈ (mark ++ x).head?, isGap d = false ∧ isTagPart d = false := by
    rcases hmark with rfl | rfl <;> simp <;> decide
  have hbehind : ∀ d ∈ (gap ++ (mark ++ x)).head?, isTagPart d = false := by
    intro d hd
    cases gap with
    | nil => exact (hmarkx d hd).2
    | cons e gap =>
        cases hd
        have he := hgap d List.mem_cons_self
        simp only [isGap, decide_eq_true_eq] at he
        rcases he with rfl | rfl <;> decide
  obtain ⟨htake, hdrop⟩ := while_exact hcs hbehind
  obtain ⟨-, hdropGap⟩ := while_exact hgap (fun d hd => (hmarkx d hd).1)
  rw [List.cons_append, openerAt_cons, if_pos hc, htake, hdrop, hdropGap, lineBreak_mark hmark]
  rfl

theorem openerAt_parts {text tag behind : Text} (h : openerAt text = some (tag, behind)) :
    ∃ gap mark, text = 60 :: 60 :: 60 :: (tag ++ (gap ++ (mark ++ behind))) ∧ isTag tag = true ∧
      (∀ c ∈ gap, isGap c = true) ∧ (mark = ['\n'.toNat] ∨ mark = ['\r'.toNat, '\n'.toNat]) := by
  unfold openerAt at h
  split at h
  case h_2 => cases h
  case h_1 c cs =>
    split at h
    · rename_i hc
      obtain ⟨rest, hbreak, heq⟩ := Option.map_eq_some_iff.mp h
      cases heq
      obtain ⟨mark, hmark, hrest⟩ := lineBreak_some hbreak
      refine ⟨(cs.dropWhile isTagPart).takeWhile isGap, mark, ?_, ?_, fun d hd => List.mem_takeWhile_imp hd, hmark⟩
      · rw [← hrest, List.takeWhile_append_dropWhile, List.cons_append, List.takeWhile_append_dropWhile]
      · rw [isTag, hc, Bool.true_and, List.all_eq_true]
        exact fun d hd => List.mem_takeWhile_imp hd
    · cases h

/-- No opener reaches into the next one. -/
theorem openerAt_shape {text tag behind : Text} (h : openerAt text = some (tag, behind)) :
    ∃ c rest, text = 60 :: 60 :: 60 :: c :: (rest ++ behind) ∧ isTagStart c = true ∧ '<'.toNat ∉ rest := by
  obtain ⟨gap, mark, rfl, htag, hgap, hmark⟩ := openerAt_parts h
  obtain ⟨c, cs, rfl, hc, hcs⟩ := isTag_cons htag
  refine ⟨c, cs ++ (gap ++ mark), by simp, hc, ?_⟩
  intro hmem
  rcases List.mem_append.mp hmem with hin | hmem
  · exact absurd (hcs _ hin) (by decide)
  · rcases List.mem_append.mp hmem with hin | hin
    · exact absurd (hgap _ hin) (by decide)
    · rcases hmark with rfl | rfl <;> simp at hin

theorem openerAt_before {s x : Text} (hs : s ≠ []) (h : openerAt s = none) :
    openerAt (s ++ 60 :: 60 :: 60 :: c :: x) = none := by
  by_contra hsome
  obtain ⟨⟨tag, behind⟩, hfound⟩ := Option.ne_none_iff_exists'.mp hsome
  obtain ⟨head, hhead, -, -, hall⟩ := openerAt_some hfound
  obtain ⟨d, rest, hshape, hd, hrest⟩ := openerAt_shape hfound
  have hopening : head = 60 :: 60 :: 60 :: d :: rest := by
    rw [hhead] at hshape
    exact List.append_cancel_right hshape
  have hfourth : d ≠ 60 := by
    rintro rfl
    exact absurd hd (by decide)
  have hindex := congrArg (fun text => text[3]?) hshape
  -- a text shorter than the four units an opener begins with would end in a `<` where the tag starts
  match s, hs with
  | [_], _ => exact absurd (by simpa using hindex.symm) hfourth
  | [_, _], _ => exact absurd (by simpa using hindex.symm) hfourth
  | [_, _, _], _ => exact absurd (by simpa using hindex.symm) hfourth
  | a :: b :: e :: f :: s, _ =>
      simp only [List.cons_append, List.cons.injEq] at hshape
      obtain ⟨rfl, rfl, rfl, rfl, hrests⟩ := hshape
      have hin : ∃ more, s = rest ++ more := by
        rcases List.append_eq_append_iff.mp hrests with ⟨more, hmore, hnext⟩ | ⟨more, hmore, -⟩
        · cases more with
          | nil => exact ⟨[], by rw [hmore, List.append_nil, List.append_nil]⟩
          | cons g more =>
              obtain rfl : 60 = g := List.head_eq_of_cons_eq hnext
              exact absurd (by rw [hmore]; simp) hrest
        · exact ⟨more, hmore⟩
      obtain ⟨more, rfl⟩ := hin
      have hat := hall more
      rw [hopening, List.cons_append, List.cons_append, List.cons_append, List.cons_append, h] at hat
      cases hat

theorem opener_before {u x : Text} (h : opener u = none) :
    opener (u ++ 60 :: 60 :: 60 :: c :: x) = (opener (60 :: 60 :: 60 :: c :: x)).map (Match.shift u.length) := by
  induction u with
  | nil =>
      have hzero : Match.shift 0 = id := by
        funext f
        simp [Match.shift]
      rw [List.nil_append, List.length_nil, hzero, Option.map_id]
      rfl
  | cons d u ih =>
      rw [opener] at h
      split at h
      · cases h
      · rename_i hat
        rw [Option.map_eq_none_iff] at h
        have hbefore := openerAt_before (x := x) (c := c) (List.cons_ne_nil d u) hat
        rw [List.cons_append] at hbefore
        rw [List.cons_append, opener, hbefore, ih h, Option.map_map, shift_shift, List.length_cons, Nat.add_comm]

/-- The loop finds the first block where it stands. -/
theorem opener_block {p : Text} (b : HeredocBlock) (hp : Outside p) (x : Text) :
    opener (blankLiterals (p ++ (b.opening ++ x))) = some ⟨p.length, b.opening.length, b.tag⟩ := by
  obtain ⟨gap, mark, hblank, hgap, hmark, hlen⟩ := opening_blanked b x
  obtain ⟨hmode, hnone⟩ := hp
  have hhead : (b.opening ++ x).head? = some '<'.toNat := rfl
  obtain ⟨c, cs, htag, -⟩ := isTag_cons b.tag_name
  have hopen := openerAt_opening b.tag_name hgap hmark (blankFrom .code x)
  rw [blankLiterals, blankFrom_append, hhead, hmode, hblank]
  rw [htag] at hopen ⊢
  rw [List.cons_append] at hopen ⊢
  rw [opener_before hnone, opener, hopen, Option.map_some, length_blankBefore]
  simp only [Match.first, Match.shift, Nat.add_zero, Option.some.injEq, Match.mk.injEq, true_and, and_true]
  rw [← hlen, htag]
  simp only [List.length_cons, List.length_append]
  omega

/-! ## The terminator's line -/

theorem isGap_line (h : isLineTerminator c = true) : isGap c = false := by
  simp only [isLineTerminator, decide_eq_true_eq] at h
  simp only [isGap, decide_eq_false_iff_not, Char.reduceToNat]
  omega

theorem isTagPart_line (h : isLineTerminator c = true) : isTagPart c = false := by
  simp only [isLineTerminator, decide_eq_true_eq] at h
  rw [Bool.eq_false_iff]
  intro hpart
  simp only [isTagPart, isTagStart, Bool.or_eq_true, decide_eq_true_eq] at hpart
  omega

/-- A line of the body is no terminator, whatever follows the body. -/
theorem terminatorAt_body {tag v w : Text} (htag : isTag tag = true) (hv : v ≠ [])
    (hline : v.getLast?.all isLineTerminator = true) (h : ¬Terminates tag v) : terminatorAt tag (v ++ w) = none := by
  obtain ⟨init, l, rfl⟩ : ∃ init l, v = init ++ [l] :=
    ⟨v.dropLast, v.getLast hv, (List.dropLast_append_getLast hv).symm⟩
  have hl : isLineTerminator l = true := by simpa using hline
  have hgap : (init ++ [l]).dropWhile isGap = init.dropWhile isGap ++ [l] := by
    rw [List.dropWhile_append]
    split
    · rename_i hempty
      rw [List.isEmpty_iff.mp hempty]
      simp [isGap_line hl]
    · rfl
  have hdrop : (init ++ [l] ++ w).dropWhile isGap = init.dropWhile isGap ++ l :: w := by
    rw [List.dropWhile_append, hgap]
    simp
  rw [terminatorAt, hdrop]
  simp only
  split
  · rename_i hprefix
    rw [List.isPrefixOf_iff_prefix] at hprefix
    have hnot : l ∉ tag := by
      intro hin
      have hpart := isTag_parts htag l hin
      rw [isTagPart_line hl] at hpart
      cases hpart
    obtain ⟨r, hr⟩ := Lib.Tags.prefix_of_append_cons hnot hprefix
    split
    · rfl
    · rename_i hend
      refine absurd ⟨(init ++ [l]).takeWhile isGap, r ++ [l], ?_, fun c hc => List.mem_takeWhile_imp hc, ?_⟩ h
      · rw [← List.append_assoc tag, hr, ← hgap, List.takeWhile_append_dropWhile]
      · rw [← hr, List.append_assoc, List.drop_left, Bool.not_eq_true] at hend
        cases r with
        | nil => exact hend
        | cons c r => exact hend
  · rfl

/-- The body of a block is skipped, line by line. -/
theorem terminator_body {tag w : Text} (htag : isTag tag = true) {found : Text × Text}
    (hw : terminatorAt tag w = some found) {v : Text} (start : Bool) (hstart : v = [] → start = true)
    (hlines : v.getLast?.all isLineTerminator = true)
    (hopen : ∀ u v', v = u ++ v' → u.getLast?.elim start isLineTerminator = true → v' ≠ [] → ¬Terminates tag v') :
    terminator tag start (v ++ w) = some ((Match.first w found).shift v.length) := by
  induction v generalizing start with
  | nil =>
      have hne : w ≠ [] := by
        rintro rfl
        obtain ⟨c, cs, rfl, -⟩ := isTag_cons htag
        cases hw
      obtain ⟨c, w, rfl⟩ := List.exists_cons_of_ne_nil hne
      rw [List.nil_append, terminator, hstart rfl, if_pos rfl, hw]
      simp [Match.shift]
  | cons c v ih =>
      have hfirst : (if start then terminatorAt tag (c :: (v ++ w)) else none) = none := by
        cases start with
        | false => rfl
        | true =>
            have hline := hopen [] (c :: v) rfl rfl (List.cons_ne_nil c v)
            exact terminatorAt_body htag (List.cons_ne_nil c v) hlines hline
      rw [List.getLast?_cons] at hlines
      have hrest := ih (isLineTerminator c) ?_ ?_ ?_
      · rw [List.cons_append, terminator, hfirst, hrest, Option.map_some]
        simp only [Match.shift, List.length_cons, Option.some.injEq, Match.mk.injEq, and_true]
        omega
      · rintro rfl
        simpa using hlines
      · cases hlast : v.getLast? with
        | none => rfl
        | some l => simpa [hlast] using hlines
      · intro u v' huv hu hv'
        refine hopen (c :: u) v' (by rw [huv, List.cons_append]) ?_ hv'
        rw [List.getLast?_cons]
        cases hlast : u.getLast? with
        | none => simpa [hlast] using hu
        | some l => simpa [hlast] using hu

/-! ## One round -/

/-- The text without a `\r` that ends its first line. -/
def dropCarriage (text : Text) : Text := text.takeWhile isTrailer ++ lineEnd (text.dropWhile isTrailer)

@[simp] theorem lineEnd_newline (x : Text) : lineEnd (10 :: x) = 10 :: x := rfl

@[simp] theorem lineEnd_crlf (x : Text) : lineEnd (13 :: 10 :: x) = 10 :: x := rfl

theorem lineEnd_suffix (text : Text) : lineEnd text <:+ text := by
  unfold lineEnd
  split
  · split
    · exact List.suffix_cons _ _
    · exact List.suffix_rfl
  · exact List.suffix_rfl

theorem drop_suffix_length {l text : Text} (h : l <:+ text) : text.drop (text.length - l.length) = l := by
  obtain ⟨front, rfl⟩ := h
  simp

theorem isGap_tagStart (h : isTagStart c = true) : isGap c = false := by
  simp only [isTagStart, decide_eq_true_eq] at h
  simp only [isGap, decide_eq_false_iff_not, Char.reduceToNat]
  omega

theorem terminatorAt_line {tag indent more : Text} (htag : isTag tag = true) (hindent : ∀ c ∈ indent, isGap c = true)
    (hmore : more.head?.any isTagPart = false) :
    terminatorAt tag (indent ++ (tag ++ more)) = some (more.takeWhile isTrailer, lineEnd (more.dropWhile isTrailer)) := by
  obtain ⟨c, cs, rfl, hc, -⟩ := isTag_cons htag
  have hhead : ∀ d ∈ (c :: cs ++ more).head?, isGap d = false := by
    intro d hd
    cases hd
    exact isGap_tagStart hc
  obtain ⟨-, hdrop⟩ := while_exact hindent hhead
  rw [terminatorAt, hdrop]
  simp [hmore]

/-- One round puts a literal in the place of the first block, and loses a `\r` behind it. -/
theorem expandFrom_block {a p : Text} (ha : Sealed a) (hp : Outside p) (b : HeredocBlock) {more : Text}
    (hmore : more.head?.any isTagPart = false) (n : ℕ) :
    expandFrom (n + 1) (a ++ (p ++ (b.text ++ more))) =
      { expandFrom n (a ++ p ++ quote b.body ++ dropCarriage more) with
        found := ⟨b.tag, b.body⟩ ::
          (expandFrom n (a ++ p ++ quote b.body ++ dropCarriage more)).found } := by
  have htext : b.text ++ more = b.opening ++ (b.body ++ (b.indent ++ (b.tag ++ more))) := by
    simp [HeredocBlock.text]
  have hopener := ha.opener (p ++ (b.text ++ more))
  rw [htext, opener_block b hp, Option.map_some] at hopener
  have hat := terminatorAt_line b.tag_name b.indent_gap hmore
  have hterminator := terminator_body b.tag_name hat true (fun _ => rfl) b.body_lines (fun u v huv hu hv => by
    refine b.body_open u v huv ?_ hv
    cases hlast : u.getLast? with
    | none => rfl
    | some l => simpa [hlast] using hu)
  -- the texts before and behind the positions that the round computes
  have hrest : (a ++ (p ++ (b.opening ++ (b.body ++ (b.indent ++ (b.tag ++ more)))))).drop
      (a.length + p.length + b.opening.length) = b.body ++ (b.indent ++ (b.tag ++ more)) := by
    rw [Nat.add_assoc, drop_length_add, drop_length_add, List.drop_left]
  have hsuffix : lineEnd (more.dropWhile isTrailer) <:+ b.indent ++ (b.tag ++ more) :=
    ((lineEnd_suffix _).trans (List.dropWhile_suffix _)).trans
      ((List.suffix_append _ _).trans (List.suffix_append _ _))
  have hend : (a ++ (p ++ (b.opening ++ (b.body ++ (b.indent ++ (b.tag ++ more)))))).drop
      (a.length + p.length + b.opening.length + b.body.length +
        ((b.indent ++ (b.tag ++ more)).length - (lineEnd (more.dropWhile isTrailer)).length)) =
      lineEnd (more.dropWhile isTrailer) := by
    rw [Nat.add_assoc, Nat.add_assoc, Nat.add_assoc, drop_length_add, drop_length_add, drop_length_add,
      drop_length_add, drop_suffix_length hsuffix]
  rw [htext, expandFrom, hopener]
  simp only [Match.shift, hrest]
  rw [hterminator]
  simp only [Match.first, Match.shift, Nat.add_zero, List.take_left, hend]
  rw [take_length_add, List.take_left]
  simp only [dropCarriage, List.append_assoc]

theorem sealed_block {a p : Text} (ha : Sealed a) (hp : Outside p) (b : HeredocBlock) (more : Text) :
    Sealed (a ++ p ++ quote b.body) := by
  have hfound := opener_block b hp more
  have hsealed := ha.literal hfound b.body
  simpa using hsealed

/-! ## Literals -/

theorem literal_quote (s : Text) : Literal (quote s) s := ⟨quoteUnits s ++ ['"'.toNat], rfl, chars_quoteUnits s []⟩

theorem chars_append {text s behind : Text} (h : Chars text s behind) (more : Text) :
    Chars (text ++ more) s (behind ++ more) := by
  induction h with
  | close behind => exact .close (behind ++ more)
  | plain hc _ ih => exact .plain hc ih
  | escape he _ ih => exact .escape he ih
  | unicode hu _ ih => exact .unicode hu ih

/-- The literals that two texts begin with end at the same place. -/
theorem Literal.behind {literal literal' s v w : Text} (h : Literal literal s) (h' : Literal literal' s)
    (heq : literal ++ v = literal' ++ w) : v = w := by
  obtain ⟨text, rfl, hchars⟩ := h
  obtain ⟨text', rfl, hchars'⟩ := h'
  have hread := readChars_complete (chars_append hchars v) le_rfl
  have hread' := readChars_complete (chars_append hchars' w) le_rfl
  have hsame : text ++ v = text' ++ w := (List.cons.inj heq).2
  rw [hsame, hread'] at hread
  simpa using (Prod.mk.inj (Option.some.inj hread)).2.symm

/-! ## The text behind a block -/

/-- The first line ends with a `\r` that the terminator's pattern takes. -/
def Carriage (q : Text) (last : Bool) : Prop :=
  ∃ t z, q = t ++ '\r'.toNat :: z ∧ (∀ c ∈ t, isTrailer c = true) ∧
    (z.head?.any isLineTerminator = true ∨ z = [] ∧ last = true)

def NoCarriage : List (HeredocBlock × Text) → Prop
  | [] => True
  | (_, q) :: parts => ¬Carriage q parts.isEmpty ∧ NoCarriage parts

/-- None is lost behind the first `n` blocks. -/
def NoCarriageWithin : ℕ → List (HeredocBlock × Text) → Prop
  | n + 1, (_, q) :: parts => ¬Carriage q parts.isEmpty ∧ NoCarriageWithin n parts
  | _, _ => True

/-- With `\n` behind the first opener. -/
def unixFirst : List (HeredocBlock × Text) → List (HeredocBlock × Text)
  | [] => []
  | (b, q) :: parts => ({ b with crlf := false }, q) :: parts

theorem programText_eq (q : Text) (parts : List (HeredocBlock × Text)) :
    programText q parts = q ++ programText [] parts := by
  cases parts with
  | nil => exact (List.append_nil q).symm
  | cons part parts => rfl

theorem programText_head (parts : List (HeredocBlock × Text)) :
    programText [] parts = [] ∧ parts = [] ∨ (programText [] parts).head? = some '<'.toNat ∧ parts ≠ [] := by
  cases parts with
  | nil => exact Or.inl ⟨rfl, rfl⟩
  | cons part parts => exact Or.inr ⟨rfl, List.cons_ne_nil _ _⟩

theorem dropCarriage_line {t x : Text} (ht : ∀ d ∈ t, isTrailer d = true) (hc : isTrailer c = false) :
    dropCarriage (t ++ c :: x) = t ++ lineEnd (c :: x) := by
  have hhead : ∀ d ∈ (c :: x).head?, isTrailer d = false := by
    intro d hd
    cases hd
    exact hc
  obtain ⟨htake, hdrop⟩ := while_exact ht hhead
  rw [dropCarriage, htake, hdrop]

theorem isTrailer_of_tagPart (h : isTagPart c = true) : isTrailer c = true := by
  simp only [isTagPart, isTagStart, Bool.or_eq_true, decide_eq_true_eq] at h
  simp only [isTrailer, decide_eq_true_eq, Char.reduceToNat]
  omega

theorem isTrailer_of_line (h : isLineTerminator c = false) : isTrailer c = true := by
  simp only [isLineTerminator, decide_eq_false_iff_not] at h
  simp only [isTrailer, decide_eq_true_eq, Char.reduceToNat]
  omega

theorem opener_trailer (b : HeredocBlock) :
    ∀ c ∈ ['<'.toNat, '<'.toNat, '<'.toNat] ++ (b.tag ++ b.aside), isTrailer c = true := by
  intro c hc
  rcases List.mem_append.mp hc with hc | hc
  · simp only [List.mem_cons, List.not_mem_nil, or_false, or_self] at hc
    rw [hc]
    decide
  · rcases List.mem_append.mp hc with hc | hc
    · exact isTrailer_of_tagPart (isTag_parts b.tag_name c hc)
    · exact isTrailer_of_line (b.aside_blank.line c hc)

/-- Where no `\r` of the text between the blocks is lost, one of the next opener's line may be. -/
theorem dropCarriage_kept {q : Text} (h : ¬Carriage q parts.isEmpty) :
    dropCarriage (programText q parts) = programText q parts ∨
      dropCarriage (programText q parts) = programText q (unixFirst parts) := by
  have hline : ∀ c ∈ q.takeWhile isTrailer, isTrailer c = true := fun c hc => List.mem_takeWhile_imp hc
  have hq : q = q.takeWhile isTrailer ++ q.dropWhile isTrailer := (List.takeWhile_append_dropWhile ..).symm
  cases hrest : q.dropWhile isTrailer with
  | nil =>
      rw [hrest, List.append_nil] at hq
      rw [← hq] at hline
      cases parts with
      | nil =>
          left
          rw [programText, dropCarriage, hrest, ← hq, lineEnd, List.append_nil]
          simp
      | cons part parts =>
          obtain ⟨b, q'⟩ := part
          have hfront : ∀ c ∈ q ++ (['<'.toNat, '<'.toNat, '<'.toNat] ++ (b.tag ++ b.aside)), isTrailer c = true := by
            intro c hc
            rcases List.mem_append.mp hc with hc | hc
            · exact hline c hc
            · exact opener_trailer b c hc
          cases hcrlf : b.crlf with
          | false =>
              left
              have hkept := dropCarriage_line (x := b.body ++ (b.indent ++ (b.tag ++ programText q' parts))) hfront
                (show isTrailer '\n'.toNat = false by decide)
              simpa [programText, HeredocBlock.text, HeredocBlock.opening, HeredocBlock.eol, hcrlf] using hkept
          | true =>
              right
              have hlost := dropCarriage_line
                (x := '\n'.toNat :: (b.body ++ (b.indent ++ (b.tag ++ programText q' parts)))) hfront
                (show isTrailer '\r'.toNat = false by decide)
              simpa [programText, unixFirst, HeredocBlock.text, HeredocBlock.opening, HeredocBlock.eol, hcrlf] using hlost
  | cons c z =>
      rw [hrest] at hq
      have hc : isTrailer c = false := by
        have hhead := List.head?_dropWhile_not isTrailer q
        rw [hrest] at hhead
        exact hhead
      left
      rw [programText_eq, hq, List.append_assoc, List.cons_append, dropCarriage_line hline hc]
      congr 1
      simp only [isTrailer, decide_eq_false_iff_not, not_and_or, not_not, Char.reduceToNat] at hc
      rcases hc with rfl | rfl
      · rw [lineEnd, if_neg]
        intro hall
        refine h ⟨q.takeWhile isTrailer, z, hq, hline, ?_⟩
        cases z with
        | cons d z => exact Or.inl hall
        | nil =>
            rcases programText_head parts with ⟨-, rfl⟩ | ⟨hhead, -⟩
            · exact Or.inr ⟨rfl, rfl⟩
            · rw [List.nil_append, hhead] at hall
              cases hall
      · rfl

@[simp] theorem unixFirst_length (parts : List (HeredocBlock × Text)) : (unixFirst parts).length = parts.length := by
  cases parts with
  | nil => rfl
  | cons part parts => rfl

theorem unixFirst_wellFormed {q : Text} :
    WellFormed q (unixFirst parts) ↔ WellFormed q parts := by
  cases parts with
  | nil => exact Iff.rfl
  | cons part parts => exact Iff.rfl

theorem unixFirst_noCarriage :
    NoCarriage (unixFirst parts) ↔ NoCarriage parts := by
  cases parts with
  | nil => exact Iff.rfl
  | cons part parts => exact Iff.rfl

theorem unixFirst_noCarriageWithin :
    NoCarriageWithin n (unixFirst parts) ↔ NoCarriageWithin n parts := by
  cases n with
  | zero => exact Iff.rfl
  | succ n =>
      cases parts with
      | nil => exact Iff.rfl
      | cons part parts => exact Iff.rfl

theorem NoCarriage.within (h : NoCarriage parts) (n : ℕ) :
    NoCarriageWithin n parts := by
  induction n generalizing parts with
  | zero => trivial
  | succ n ih =>
      cases parts with
      | nil => trivial
      | cons part parts => exact ⟨h.1, ih h.2⟩

theorem unixFirst_aside :
    (∀ part ∈ unixFirst parts, part.1.aside = []) ↔ ∀ part ∈ parts, part.1.aside = [] := by
  cases parts with
  | nil => exact Iff.rfl
  | cons part parts => simp [unixFirst]

theorem unixFirst_expands {q code : Text} :
    Expands q (unixFirst parts) code ↔ Expands q parts code := by
  cases parts with
  | nil => exact Iff.rfl
  | cons part parts =>
      obtain ⟨b, q'⟩ := part
      constructor
      · intro h
        cases h with
        | block _ _ value rest => exact .block q b value rest
      · intro h
        cases h with
        | block _ _ value rest => exact .block q { b with crlf := false } value rest

/-- A text that goes on like the blocks, but for a `\r` of the first opener's line. -/
theorem dropCarriage_parts {q : Text} (h : ¬Carriage q parts.isEmpty) :
    ∃ parts', dropCarriage (programText q parts) = programText q parts' ∧ (parts' = parts ∨ parts' = unixFirst parts) := by
  rcases dropCarriage_kept h with hkept | hlost
  · exact ⟨parts, hkept, Or.inl rfl⟩
  · exact ⟨unixFirst parts, hlost, Or.inr rfl⟩

/-! ## What a loss leaves -/

/-- Where a text comes again behind another one, what is behind it is in the other one. -/
theorem mem_of_shift {a t y z : Text} (ha : a ≠ []) (h : t ++ c :: y = a ++ (t ++ z)) : c ∈ a := by
  induction hn : t.length using Nat.strong_induction_on generalizing t y z with
  | _ n ih =>
    rcases List.append_eq_append_iff.mp h with ⟨rest, rfl, hnext⟩ | ⟨rest, rfl, hnext⟩
    · cases rest with
      | nil =>
          rw [List.append_nil] at ha
          obtain ⟨d, t, rfl⟩ := List.exists_cons_of_ne_nil ha
          obtain rfl : c = d := List.head_eq_of_cons_eq hnext
          simp
      | cons d rest =>
          obtain rfl : c = d := List.head_eq_of_cons_eq hnext
          simp
    · refine ih rest.length ?_ (hnext.symm.trans (List.append_assoc ..)) rfl
      have hpos : 0 < a.length := List.length_pos_iff.mpr ha
      rw [← hn, List.length_append]
      omega

theorem head_of_run {z u v : Text} (h : z ++ u = c :: (z ++ v)) : u.head? = some c := by
  induction z with
  | nil => rw [List.nil_append] at h; rw [h]; rfl
  | cons d z ih =>
      obtain ⟨rfl, hrest⟩ := List.cons.inj h
      exact ih hrest

theorem modeBehind_lineComment {cs : Text} (h : ∀ c ∈ cs, isTrailer c = true) (next : Option ℕ) :
    modeBehind .lineComment cs next = .lineComment := by
  induction cs with
  | nil => rfl
  | cons c cs ih =>
      have hc : c ≠ '\n'.toNat := by
        rintro rfl
        exact absurd (h _ List.mem_cons_self) (by decide)
      rw [modeBehind, lex, if_neg hc]
      exact ih (fun d hd => h d (List.mem_cons_of_mem _ hd))

theorem Aside.no_quote {u v : Text} (h : Aside (u ++ '"'.toNat :: v))
    (hmode : modeBehind .code u (some '"'.toNat) = .code) : False := by
  have hblanked := h.blanked
  rw [blankBefore_append] at hblanked
  have hquote := hblanked '"'.toNat (List.mem_append_right _ ?_)
  · exact absurd hquote (by decide)
  · rw [List.head?_cons, Option.some_or, hmode, blankBefore, lex_quote]
    exact List.mem_cons_self

/-- A literal does not stand for an opener where the text is moved behind an aside. -/
theorem aside_shift {a t y z : Text} (ha : Aside a) (hne : a ≠ []) (ht : ∀ c ∈ t, isTrailer c = true)
    (hmode : modeBehind .code t (some '<'.toNat) = .code) : t ++ '"'.toNat :: y ≠ a ++ (t ++ z) := by
  intro h
  induction hn : t.length using Nat.strong_induction_on generalizing t y z with
  | _ n ih =>
    rcases List.append_eq_append_iff.mp h with ⟨rest, rfl, hnext⟩ | ⟨rest, rfl, hnext⟩
    · cases rest with
      | nil =>
          rw [List.append_nil] at ha hne
          obtain ⟨d, t, rfl⟩ := List.exists_cons_of_ne_nil hne
          obtain rfl : '"'.toNat = d := List.head_eq_of_cons_eq hnext
          exact Aside.no_quote (u := []) ha rfl
      | cons d rest =>
          obtain rfl : '"'.toNat = d := List.head_eq_of_cons_eq hnext
          have hquote : Single '"'.toNat := ⟨by decide, by decide, by decide⟩
          have hlt : Single '<'.toNat := ⟨by decide, by decide, by decide⟩
          exact ha.no_quote ((blankBefore_next hquote hlt .code t).2.trans hmode)
    · have hrest : ∀ c ∈ rest, isTrailer c = true := fun c hc => ht c (List.mem_append_right _ hc)
      rw [modeBehind_append, (ha.next _).2] at hmode
      rcases ha.ends with hcode | hcomment
      · rw [hcode] at hmode
        refine ih rest.length ?_ hrest hmode (hnext.symm.trans (List.append_assoc ..)) rfl
        have hpos : 0 < a.length := List.length_pos_iff.mpr hne
        rw [← hn, List.length_append]
        omega
      · rw [hcomment, modeBehind_lineComment hrest] at hmode
        cases hmode

/-- The two texts first differ where an opener was and a literal is. -/
def Replaced (x y : Text) : Prop :=
  x = y ∨ ∃ u v w, x = u ++ '<'.toNat :: v ∧ y = u ++ '"'.toNat :: w ∧ modeBehind .code u (some '<'.toNat) = .code

theorem expandFrom_replaced {a : Text} (ha : Sealed a) (n : ℕ) (x : Text)
    (h : (expandFrom n (a ++ x)).error = none) : ∃ y, (expandFrom n (a ++ x)).code = a ++ y ∧ Replaced x y := by
  induction n generalizing a x with
  | zero => cases h
  | succ n ih =>
      rw [expandFrom, ha.opener] at h ⊢
      cases hm : opener (blankLiterals x) with
      | none => exact ⟨x, rfl, Or.inl rfl⟩
      | some m =>
          simp only [hm, Option.map_some, Match.shift, Nat.add_assoc, drop_length_add, take_length_add] at h ⊢
          cases htm : terminator m.group true (x.drop (m.index + m.size)) with
          | none =>
              rw [htm] at h
              cases h
          | some tm =>
              simp only [htm] at h ⊢
              have hsealed := ha.literal hm ((x.drop (m.index + m.size)).take tm.index)
              obtain ⟨u, v, hblank, hu⟩ := opener_some hm
              obtain ⟨p, q, hx, hp, -, hmode⟩ := blankLiterals_lt hblank
              have htake : x.take m.index = p := by rw [hx, ← hu, ← hp, List.take_left']; rfl
              rw [List.append_assoc _ tm.group] at h ⊢
              obtain ⟨y, hy, -⟩ := ih hsealed _ h
              refine ⟨p ++ (quote ((x.drop (m.index + m.size)).take tm.index) ++ y), ?_,
                Or.inr ⟨p, q, _, hx, rfl, hmode⟩⟩
              rw [hy, htake, List.append_assoc, List.append_assoc]

/-- Nothing is moved behind an aside that is not lost. -/
theorem Replaced.not_shift {a t x z : Text} (ha : Aside a) (hne : a ≠ []) (ht : ∀ c ∈ t, isTrailer c = true)
    (hx : x.head?.all isLineTerminator = true) : ¬Replaced (t ++ x) (a ++ (t ++ z)) := by
  have hmoved : ∀ c y, x.head? = some c → t ++ c :: y ≠ a ++ (t ++ z) := by
    intro c y hc h
    have hline := ha.line c (mem_of_shift hne h)
    rw [hc] at hx
    rw [show isLineTerminator c = true from hx] at hline
    cases hline
  rintro (h | ⟨u, v, w, hu, hw, hmode⟩)
  · cases x with
    | nil =>
        have hlen := congrArg List.length h
        have hpos : 0 < a.length := List.length_pos_iff.mpr hne
        simp only [List.length_append, List.append_nil] at hlen
        omega
    | cons c x => exact hmoved c x rfl h
  · rcases List.append_eq_append_iff.mp hu with ⟨r, rfl, hr⟩ | ⟨r, rfl, -⟩
    · cases r with
      | nil =>
          rw [List.append_nil] at hw hmode
          exact aside_shift ha hne ht hmode hw.symm
      | cons c r =>
          refine hmoved c (r ++ '"'.toNat :: w) ?_ ?_
          · rw [hr]
            rfl
          · rw [hw, List.append_assoc]
            rfl
    · rw [List.append_assoc] at hw
      exact aside_shift ha hne (fun c hc => ht c (List.mem_append_left _ hc)) hmode hw.symm

theorem Replaced.not_carriage {q rest a e : Text} {last : Bool} (h : Carriage q last) (ha : Aside a)
    (hrest : rest = [] ∨ rest.head? = some '<'.toNat ∧ last = false) :
    ¬Replaced (dropCarriage (q ++ rest)) (a ++ (q ++ e)) := by
  obtain ⟨t, z, rfl, ht, hz⟩ := h
  have hhead : (z ++ rest).head?.all isLineTerminator = true := by
    rcases hz with hz | ⟨rfl, rfl⟩
    · cases z with
      | nil => cases hz
      | cons d z => exact hz
    · rcases hrest with rfl | ⟨-, hlast⟩
      · rfl
      · cases hlast
  have hdrop : dropCarriage (t ++ '\r'.toNat :: z ++ rest) = t ++ (z ++ rest) := by
    rw [List.append_assoc, List.cons_append, dropCarriage_line ht (by decide)]
    congr 1
    exact if_pos hhead
  rw [hdrop, List.append_assoc]
  by_cases hne : a = []
  · subst hne
    have hreturn : rest.head? ≠ some '\r'.toNat := by
      rcases hrest with rfl | ⟨hlt, -⟩
      · simp
      · rw [hlt]
        decide
    rw [List.nil_append, List.cons_append]
    rintro (h | ⟨u, v, w, hu, hw, -⟩)
    · exact hreturn (head_of_run (List.append_cancel_left h))
    · rcases List.append_eq_append_iff.mp hw with ⟨r, rfl, hr⟩ | ⟨r, rfl, hr⟩
      · rw [List.append_assoc] at hu
        rcases List.append_eq_append_iff.mp (List.append_cancel_left hu) with ⟨s, rfl, hs⟩ | ⟨s, rfl, -⟩
        · rw [List.append_assoc] at hr
          have hrun := head_of_run hr.symm
          cases s with
          | nil => simp at hrun
          | cons d s =>
              rw [hs] at hreturn
              exact hreturn hrun
        · rw [List.append_assoc] at hr
          have hrun := head_of_run hr.symm
          simp at hrun
      · rw [List.append_assoc] at hu
        have hlt := List.append_cancel_left hu
        cases r with
        | nil => exact absurd (List.head_eq_of_cons_eq hr) (by decide)
        | cons d r =>
            obtain rfl : '"'.toNat = d := List.head_eq_of_cons_eq hr
            exact absurd (List.head_eq_of_cons_eq hlt) (by decide)
  · exact Replaced.not_shift ha hne ht hhead

/-! ## Runs -/

theorem Expands.front {q code : Text} (h : Expands q parts code) :
    ∃ e, code = q ++ e := by
  cases h with
  | last => exact ⟨[], (List.append_nil q).symm⟩
  | block _ b value rest => exact ⟨_, rfl⟩

/-- Nothing is lost behind a block where the run leaves the rest as it should. -/
theorem expandFrom_behind {a q aside code : Text} (ha : Sealed a)
    (haside : Aside aside) (hq : WellFormed q parts) (he : Expands q parts code)
    (herror : (expandFrom n (a ++ dropCarriage (programText q parts))).error = none)
    (hcode : (expandFrom n (a ++ dropCarriage (programText q parts))).code = a ++ (aside ++ code)) :
    ¬Carriage q parts.isEmpty ∧ aside = [] := by
  obtain ⟨e, rfl⟩ := he.front
  obtain ⟨y, hy, hreplaced⟩ := expandFrom_replaced ha n _ herror
  obtain rfl : y = aside ++ (q ++ e) := List.append_cancel_left (hy.symm.trans hcode)
  have hkept : ¬Carriage q parts.isEmpty := by
    intro hcarriage
    rw [programText_eq] at hreplaced
    refine hreplaced.not_carriage hcarriage haside ?_
    rcases programText_head parts with ⟨hnil, -⟩ | ⟨hlt, hne⟩
    · exact Or.inl hnil
    · exact Or.inr ⟨hlt, List.isEmpty_eq_false_iff.mpr hne⟩
  refine ⟨hkept, ?_⟩
  by_contra hne
  have hsplit : q = q.takeWhile isTrailer ++ q.dropWhile isTrailer := (List.takeWhile_append_dropWhile ..).symm
  have hline : ∀ c ∈ q.takeWhile isTrailer, isTrailer c = true := fun c hc => List.mem_takeWhile_imp hc
  obtain ⟨parts', hdrop, hparts⟩ := dropCarriage_parts hkept
  rw [hdrop] at hreplaced herror hcode
  cases hrest : q.dropWhile isTrailer with
  | cons c z =>
      -- the text between the blocks has a line's end, which an aside has not
      have hc : isTrailer c = false := by
        have hhead := List.head?_dropWhile_not isTrailer q
        rw [hrest] at hhead
        exact hhead
      rw [programText_eq] at hreplaced
      rw [hrest] at hsplit
      rw [hsplit, List.append_assoc, List.append_assoc] at hreplaced
      refine Replaced.not_shift haside hne hline ?_ hreplaced
      have hend : isLineTerminator c = true := by
        by_contra hno
        rw [isTrailer_of_line (Bool.eq_false_iff.mpr hno)] at hc
        cases hc
      exact hend
  | nil =>
      rw [hrest, List.append_nil] at hsplit
      rw [← hsplit] at hline
      cases parts with
      | nil =>
          obtain rfl : parts' = [] := by
            rcases hparts with rfl | rfl
            · rfl
            · rfl
          have hend : Replaced (q ++ []) (aside ++ (q ++ e)) := by
            rw [List.append_nil]
            exact hreplaced
          exact Replaced.not_shift haside hne hline rfl hend
      | cons part parts =>
          -- the next block is found, and its literal stands where the aside should
          obtain ⟨b, q', parts'', rfl⟩ : ∃ b q' parts'', parts' = (b, q') :: parts'' := by
            rcases hparts with rfl | rfl
            · exact ⟨part.1, part.2, parts, rfl⟩
            · exact ⟨{ part.1 with crlf := false }, part.2, parts, rfl⟩
          have hformed : WellFormed q ((b, q') :: parts'') := by
            rcases hparts with heq | heq
            · rw [heq]
              exact hq
            · rw [heq]
              exact unixFirst_wellFormed.mpr hq
          obtain ⟨houtside, hmore, -⟩ := hformed
          cases n with
          | zero => cases herror
          | succ n =>
              rw [programText, expandFrom_block ha houtside b hmore] at herror hcode
              obtain ⟨w, hw, -⟩ := expandFrom_replaced (sealed_block ha houtside b []) n _ herror
              rw [hcode, List.append_assoc, List.append_assoc] at hw
              exact aside_shift haside hne hline houtside.1 (List.append_cancel_left hw).symm

/-- A run that leaves what it should had a round more than there are blocks, and lost nothing. -/
theorem expandFrom_lossless {a p code : Text} (ha : Sealed a)
    (hp : WellFormed p parts) (he : Expands p parts code)
    (herror : (expandFrom n (a ++ programText p parts)).error = none)
    (hcode : (expandFrom n (a ++ programText p parts)).code = a ++ code) :
    parts.length < n ∧ NoCarriage parts ∧ ∀ part ∈ parts, part.1.aside = [] := by
  induction n generalizing a p parts code with
  | zero => cases herror
  | succ n ih =>
      cases he with
      | last => exact ⟨Nat.succ_pos n, trivial, fun part hpart => absurd hpart List.not_mem_nil⟩
      | @block _ b q parts literal code value rest =>
          obtain ⟨houtside, hmore, hq⟩ := hp
          rw [programText, expandFrom_block ha houtside b hmore] at herror hcode
          have hsealed := sealed_block ha houtside b []
          have hbehind : (expandFrom n (a ++ p ++ quote b.body ++ dropCarriage (programText q parts))).code =
              a ++ p ++ quote b.body ++ (b.aside ++ code) := by
            obtain ⟨y, hy, -⟩ := expandFrom_replaced hsealed n _ herror
            have hsame : quote b.body ++ y = literal ++ (b.aside ++ code) := by
              have hboth := hy.symm.trans hcode
              rw [List.append_assoc, List.append_assoc] at hboth
              exact List.append_cancel_left (List.append_cancel_left hboth)
            rw [hy, (literal_quote b.body).behind value hsame]
          obtain ⟨hkept, haside⟩ := expandFrom_behind hsealed b.aside_blank hq rest herror hbehind
          obtain ⟨parts', hdrop, hparts⟩ := dropCarriage_parts hkept
          rw [haside, List.nil_append] at hbehind
          rw [hdrop] at herror hbehind
          have hrest : parts'.length < n ∧ NoCarriage parts' ∧ ∀ part ∈ parts', part.1.aside = [] := by
            rcases hparts with rfl | rfl
            · exact ih hsealed hq rest herror hbehind
            · exact ih hsealed (unixFirst_wellFormed.mpr hq) (unixFirst_expands.mpr rest) herror hbehind
          have hkeeps : parts.length < n ∧ NoCarriage parts ∧ ∀ part ∈ parts, part.1.aside = [] := by
            rcases hparts with rfl | rfl
            · exact hrest
            · rwa [unixFirst_length, unixFirst_noCarriage, unixFirst_aside] at hrest
          refine ⟨Nat.succ_lt_succ hkeeps.1, ⟨hkept, hkeeps.2.1⟩, ?_⟩
          intro part hpart
          rcases List.mem_cons.mp hpart with rfl | hpart
          · exact haside
          · exact hkeeps.2.2 part hpart

/-- With a round more than there are blocks, nothing is lost where nothing is there to lose. -/
theorem expandFrom_expands {a p : Text} (ha : Sealed a)
    (hp : WellFormed p parts) (hn : parts.length < n) (hline : NoCarriage parts)
    (haside : ∀ part ∈ parts, part.1.aside = []) :
    (expandFrom n (a ++ programText p parts)).error = none ∧
      ∃ code, (expandFrom n (a ++ programText p parts)).code = a ++ code ∧ Expands p parts code := by
  induction n generalizing a p parts with
  | zero => exact absurd hn (Nat.not_lt_zero _)
  | succ n ih =>
      cases parts with
      | nil =>
          have hnone : opener (blankLiterals (a ++ p)) = none := by
            rw [ha.opener, show opener (blankLiterals p) = none from hp]
            rfl
          rw [programText, expandFrom, hnone]
          exact ⟨rfl, p, rfl, .last p⟩
      | cons part parts =>
          obtain ⟨b, q⟩ := part
          obtain ⟨houtside, hmore, hq⟩ := hp
          obtain ⟨parts', hdrop, hparts⟩ := dropCarriage_parts hline.1
          rw [programText, expandFrom_block ha houtside b hmore, hdrop]
          have hbehind : ∀ part ∈ parts, part.1.aside = [] :=
            fun part hpart => haside part (List.mem_cons_of_mem _ hpart)
          have hlen : parts.length < n := Nat.lt_of_succ_lt_succ hn
          have hsealed := sealed_block ha houtside b []
          have hrest : (expandFrom n (a ++ p ++ quote b.body ++ programText q parts')).error = none ∧
              ∃ code, (expandFrom n (a ++ p ++ quote b.body ++ programText q parts')).code =
                a ++ p ++ quote b.body ++ code ∧ Expands q parts code := by
            rcases hparts with rfl | rfl
            · exact ih hsealed hq hlen hline.2 hbehind
            · obtain ⟨herror, code, hcode, he⟩ := ih hsealed (unixFirst_wellFormed.mpr hq)
                (by rwa [unixFirst_length]) (unixFirst_noCarriage.mpr hline.2) (unixFirst_aside.mpr hbehind)
              exact ⟨herror, code, hcode, unixFirst_expands.mp he⟩
          obtain ⟨herror, code, hcode, he⟩ := hrest
          have value := literal_quote b.body
          refine ⟨herror, p ++ (quote b.body ++ (b.aside ++ code)), ?_, .block p b value he⟩
          rw [hcode, haside (b, q) List.mem_cons_self, List.nil_append, List.append_assoc, List.append_assoc]

/-- Without a round more than there are blocks, the run is refused. -/
theorem expandFrom_refused {a p : Text} (ha : Sealed a)
    (hp : WellFormed p parts) (hn : n ≤ parts.length) (hline : NoCarriageWithin n parts) :
    (expandFrom n (a ++ programText p parts)).error = some tooMany := by
  induction n generalizing a p parts with
  | zero => rfl
  | succ n ih =>
      cases parts with
      | nil => exact absurd hn (Nat.not_succ_le_zero n)
      | cons part parts =>
          obtain ⟨b, q⟩ := part
          obtain ⟨houtside, hmore, hq⟩ := hp
          obtain ⟨parts', hdrop, hparts⟩ := dropCarriage_parts hline.1
          rw [programText, expandFrom_block ha houtside b hmore, hdrop]
          have hlen : n ≤ parts.length := Nat.le_of_succ_le_succ hn
          have hsealed := sealed_block ha houtside b []
          rcases hparts with rfl | rfl
          · exact ih hsealed hq hlen hline.2
          · exact ih hsealed (unixFirst_wellFormed.mpr hq) (by rwa [unixFirst_length])
              (unixFirst_noCarriageWithin.mpr hline.2)

/-! ## The loop's bound -/

/-- The blocks become literals of their bodies and nothing else changes, unless there are too many. -/
structure Verbatim (p : Text) (parts : List (HeredocBlock × Text)) : Prop where
  succeeds : (expandHeredocs (programText p parts)).error = none ↔ parts.length ≤ HEREDOC_MAX
  replaces : (expandHeredocs (programText p parts)).error = none →
    Expands p parts (expandHeredocs (programText p parts)).code

/-- The rounds are one too few for the most blocks that are allowed. Below that, blocks stand for
their bodies just where no `\r` ends a terminator's line and nothing is behind an opener's tag.
More blocks are refused where no `\r` ends the line of one of the first of them. -/
theorem verbatim_iff (p : Text) (parts : List (HeredocBlock × Text)) (hp : WellFormed p parts) :
    (parts.length ≤ HEREDOC_MAX →
      (Verbatim p parts ↔ parts.length ≠ HEREDOC_MAX ∧ NoCarriage parts ∧ ∀ part ∈ parts, part.1.aside = [])) ∧
    (HEREDOC_MAX < parts.length → NoCarriageWithin HEREDOC_MAX parts → Verbatim p parts) := by
  constructor
  · intro hmax
    constructor
    · intro h
      have herror := h.succeeds.mpr hmax
      obtain ⟨hlen, hline, haside⟩ := expandFrom_lossless (a := []) sealed_nil hp (h.replaces herror) herror rfl
      exact ⟨Nat.ne_of_lt hlen, hline, haside⟩
    · rintro ⟨hne, hline, haside⟩
      obtain ⟨herror, code, hcode, he⟩ :=
        expandFrom_expands (a := []) sealed_nil hp (Nat.lt_of_le_of_ne hmax hne) hline haside
      have hsame : (expandHeredocs (programText p parts)).code = code := hcode
      exact ⟨iff_of_true herror hmax, fun _ => by rwa [hsame]⟩
  · intro hmax hline
    have herror : (expandHeredocs (programText p parts)).error = some tooMany :=
      expandFrom_refused (a := []) sealed_nil hp hmax.le hline
    constructor
    · rw [herror]
      exact iff_of_false (by simp) (Nat.not_le.mpr hmax)
    · rw [herror]
      intro h
      cases h

theorem wellFormed_replicate {b : HeredocBlock} {p q : Text} (hp : Outside p) (hq : Outside q)
    (hlast : opener (blankLiterals q) = none) (hend : q.head?.any isTagPart = false) (hne : q ≠ []) (n : ℕ) :
    WellFormed p (List.replicate (n + 1) (b, q)) := by
  have hbehind : ∀ parts, (programText q parts).head?.any isTagPart = false := by
    intro parts
    rw [programText_eq, List.head?_append_of_ne_nil q hne]
    exact hend
  induction n generalizing p with
  | zero => exact ⟨hp, hbehind [], hlast⟩
  | succ n ih => exact ⟨hp, hbehind _, ih hq⟩

theorem noCarriage_replicate {b : HeredocBlock} {q : Text} (hq : '\r'.toNat ∉ q) (n : ℕ) :
    NoCarriage (List.replicate n (b, q)) := by
  induction n with
  | zero => trivial
  | succ n ih =>
      refine ⟨?_, ih⟩
      rintro ⟨t, z, rfl, -⟩
      exact hq (by simp)

/-- The block `<<<E`, `a`, `E`. -/
def smallBlock : HeredocBlock where
  tag := codeUnits "E"
  aside := []
  crlf := false
  body := codeUnits "a\n"
  indent := []
  tag_name := by decide
  aside_blank := ⟨by decide, by decide, by decide⟩
  body_lines := by decide
  body_open := by
    rintro u v hbody - - ⟨gap, behind, rfl, -⟩
    have hmem : 'E'.toNat ∈ codeUnits "a\n" := by
      rw [hbody]
      simp [codeUnits]
    exact absurd hmem (by decide)
  indent_gap := by decide

theorem verbatim_iff_small : Verbatim (codeUnits "f(") [(smallBlock, codeUnits ");")] :=
  ((verbatim_iff (codeUnits "f(") [(smallBlock, codeUnits ");")] (by decide)).1 (by decide)).mpr
    ⟨by decide, noCarriage_replicate (by decide) 1, by decide⟩

/-- A hundred blocks are not too many, and are refused. -/
theorem hundred_blocks_refused :
    WellFormed [] (List.replicate 100 (smallBlock, codeUnits ";")) ∧
      (List.replicate 100 (smallBlock, codeUnits ";")).length = HEREDOC_MAX ∧
      ¬Verbatim [] (List.replicate 100 (smallBlock, codeUnits ";")) := by
  have hformed : WellFormed [] (List.replicate 100 (smallBlock, codeUnits ";")) :=
    wellFormed_replicate (by decide) (by decide) (by decide) (by decide) (by decide) 99
  have hlen : (List.replicate 100 (smallBlock, codeUnits ";")).length = HEREDOC_MAX := List.length_replicate
  refine ⟨hformed, hlen, fun h => ?_⟩
  have hrefused := expandFrom_refused sealed_nil hformed hlen.ge ((noCarriage_replicate (by decide) 100).within _)
  have hdone := h.succeeds.mpr hlen.le
  rw [expandHeredocs, ← List.nil_append (programText _ _), hrefused] at hdone
  cases hdone

end Elpis.Heredoc
