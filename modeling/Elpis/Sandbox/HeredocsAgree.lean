import Elpis.Sandbox.Heredocs
import Mathlib.Data.List.TakeWhile

/-!
# The two paths find the same blocks

The loops put different literals in a block's place. What is in front of the last literal has no
opener any more and is blanked for itself, so both loops go on with the same text behind it.
-/

namespace Elpis.Heredoc

open Elpis.Js Elpis.Jslex
open Elpis.Lib.JsonText (quoteUnit quoteUnits quote hexUnit unicodeEscape isPair shortEscapes quoteUnit_cases)

/-! ## Openers -/

theorem while_exact {p : ℕ → Bool} {body rest : Text} (hbody : ∀ c ∈ body, p c = true)
    (hrest : ∀ c ∈ rest.head?, p c = false) :
    (body ++ rest).takeWhile p = body ∧ (body ++ rest).dropWhile p = rest := by
  have hstop : rest.takeWhile p = [] ∧ rest.dropWhile p = rest := by
    cases rest with
    | nil => exact ⟨rfl, rfl⟩
    | cons c cs => simp [hrest c rfl]
  rw [List.takeWhile_append_of_pos hbody, List.dropWhile_append_of_pos hbody, hstop.1, hstop.2, List.append_nil]
  exact ⟨rfl, rfl⟩

theorem lineBreak_some {text behind : Text} (h : lineBreak text = some behind) :
    ∃ mark, (mark = ['\n'.toNat] ∨ mark = ['\r'.toNat, '\n'.toNat]) ∧ text = mark ++ behind := by
  unfold lineBreak at h
  split at h
  · cases h
    exact ⟨_, Or.inl rfl, rfl⟩
  · cases h
    exact ⟨_, Or.inr rfl, rfl⟩
  · cases h

theorem lineBreak_mark {mark : Text} (h : mark = ['\n'.toNat] ∨ mark = ['\r'.toNat, '\n'.toNat]) (z : Text) :
    lineBreak (mark ++ z) = some z := by
  rcases h with rfl | rfl
  · rfl
  · rfl

theorem openerAt_cons (c : ℕ) (cs : Text) : openerAt (60 :: 60 :: 60 :: c :: cs) =
    if isTagStart c then
      (lineBreak ((cs.dropWhile isTagPart).dropWhile isGap)).map (fun behind => (c :: cs.takeWhile isTagPart, behind))
    else none := rfl

/-- The text of an opener: no quote is in it, and it is one whatever follows. -/
theorem openerAt_some {text tag behind : Text} (h : openerAt text = some (tag, behind)) :
    ∃ head, text = head ++ behind ∧ '"'.toNat ∉ head ∧ head ≠ [] ∧ ∀ z, openerAt (head ++ z) = some (tag, z) := by
  unfold openerAt at h
  split at h
  case h_2 => cases h
  case h_1 c cs =>
    by_cases hc : isTagStart c = true
    · rw [if_pos hc] at h
      obtain ⟨rest, hbreak, heq⟩ := Option.map_eq_some_iff.mp h
      cases heq
      obtain ⟨mark, hmark, hrest⟩ := lineBreak_some hbreak
      have hcs : cs = cs.takeWhile isTagPart ++ ((cs.dropWhile isTagPart).takeWhile isGap ++ (mark ++ behind)) := by
        rw [← hrest, List.takeWhile_append_dropWhile, List.takeWhile_append_dropWhile]
      have htag : ∀ d ∈ cs.takeWhile isTagPart, isTagPart d = true := fun d hd => List.mem_takeWhile_imp hd
      have hgap : ∀ d ∈ (cs.dropWhile isTagPart).takeWhile isGap, isGap d = true :=
        fun d hd => List.mem_takeWhile_imp hd
      refine ⟨60 :: 60 :: 60 :: c :: (cs.takeWhile isTagPart ++ ((cs.dropWhile isTagPart).takeWhile isGap ++ mark)),
        by simpa using hcs, ?_, by simp, fun z => ?_⟩
      · have hquote : isTagPart '"'.toNat = false ∧ isGap '"'.toNat = false ∧ isTagStart '"'.toNat = false := by
          decide
        intro hmem
        simp only [List.mem_cons, List.mem_append] at hmem
        rcases hmem with h60 | h60 | h60 | hc' | hpart | hin | hin
        · cases h60
        · cases h60
        · cases h60
        · rw [← hc', hquote.2.2] at hc
          cases hc
        · exact absurd (htag _ hpart) (by rw [hquote.1]; decide)
        · exact absurd (hgap _ hin) (by rw [hquote.2.1]; decide)
        · rcases hmark with rfl | rfl <;> simp at hin
      · have hmarkz : ∀ d ∈ (mark ++ z).head?, isGap d = false ∧ isTagPart d = false := by
          rcases hmark with rfl | rfl <;> simp <;> decide
        obtain ⟨-, hdropGap⟩ := while_exact hgap (fun d hd => (hmarkz d hd).1)
        have hbehind : ∀ d ∈ ((cs.dropWhile isTagPart).takeWhile isGap ++ (mark ++ z)).head?, isTagPart d = false := by
          intro d hd
          cases hg : (cs.dropWhile isTagPart).takeWhile isGap with
          | nil =>
              rw [hg] at hd
              exact (hmarkz d hd).2
          | cons e es =>
              rw [hg] at hd
              cases hd
              have hgapd : isGap d = true := hgap d (by rw [hg]; exact List.mem_cons_self)
              simp only [isGap, decide_eq_true_eq] at hgapd
              rcases hgapd with rfl | rfl <;> decide
        obtain ⟨htake, hdrop⟩ := while_exact htag hbehind
        simp only [List.cons_append, List.append_assoc]
        rw [openerAt_cons, if_pos hc, htake, hdrop, hdropGap, lineBreak_mark hmark]
        rfl
    · rw [if_neg hc] at h
      cases h

/-- No opener starts in the text, whatever follows. -/
def Inert (u : Text) : Prop := ∀ y, opener (u ++ y) = (opener y).map (Match.shift u.length)

theorem shift_shift (m n : ℕ) : Match.shift m ∘ Match.shift n = Match.shift (m + n) := by
  funext f
  simp [Match.shift, Nat.add_assoc]

theorem inert_nil : Inert [] := by
  intro y
  have hzero : Match.shift 0 = id := by
    funext f
    simp [Match.shift]
  rw [List.nil_append, List.length_nil, hzero, Option.map_id]
  rfl

theorem Inert.cons {c : ℕ} {u : Text} (hc : ∀ y, openerAt (c :: (u ++ y)) = none) (hu : Inert u) :
    Inert (c :: u) := by
  intro y
  rw [List.cons_append, opener, hc, hu, Option.map_map, shift_shift, List.length_cons, Nat.add_comm]

theorem Inert.append {u v : Text} (hu : Inert u) (hv : Inert v) : Inert (u ++ v) := by
  intro y
  rw [List.append_assoc, hu, hv, Option.map_map, shift_shift, List.length_append]

theorem inert_of_ne {u : Text} (h : ∀ c ∈ u, c ≠ '<'.toNat) : Inert u := by
  induction u with
  | nil => exact inert_nil
  | cons c cs ih =>
      refine Inert.cons (fun y => ?_) (ih (fun d hd => h d (List.mem_cons_of_mem _ hd)))
      have hc : c ≠ 60 := h c List.mem_cons_self
      unfold openerAt
      split
      · rename_i heq
        exact absurd (List.head_eq_of_cons_eq heq) hc
      · rfl

/-- What is in front of the first opener, behind a quote. -/
theorem inert_before {u w : Text} {m : Match} (h : opener (u ++ w) = some m) (hm : u.length ≤ m.index) :
    Inert (u ++ ['"'.toNat]) := by
  induction u generalizing m with
  | nil => exact inert_of_ne (by decide)
  | cons c cs ih =>
      rw [List.cons_append, opener] at h
      cases hat : openerAt (c :: (cs ++ w)) with
      | some found =>
          rw [hat] at h
          cases h
          exact absurd hm (by simp [Match.first])
      | none =>
          rw [hat] at h
          obtain ⟨m', hm', rfl⟩ := Option.map_eq_some_iff.mp h
          have hle : cs.length ≤ m'.index := by
            have : cs.length + 1 ≤ 1 + m'.index := hm
            omega
          suffices hcons : Inert (c :: (cs ++ ['"'.toNat])) from hcons
          refine Inert.cons (fun y => ?_) (ih hm' hle)
          by_contra hsome
          obtain ⟨⟨tag, behind⟩, hfound⟩ := Option.ne_none_iff_exists'.mp hsome
          obtain ⟨head, htext, hquote, hne, hall⟩ := openerAt_some hfound
          -- the opener ends before the quote, so it is in `cs` and one in front of `w` too
          rw [List.append_assoc, ← List.cons_append, List.singleton_append] at htext
          rcases List.append_eq_append_iff.mp htext with ⟨rest, hhead, hrest⟩ | ⟨rest, hhead, hrest⟩
          · cases rest with
            | nil =>
                rw [List.append_nil] at hhead
                have hw := hall w
                rw [hhead, List.cons_append, hat] at hw
                cases hw
            | cons d ds =>
                cases hrest
                exact hquote (by rw [hhead]; simp)
          · have hw := hall (rest ++ w)
            rw [← List.append_assoc, ← hhead, List.cons_append, hat] at hw
            cases hw

theorem opener_some {text : Text} {m : Match} (h : opener text = some m) :
    ∃ u v, text = u ++ '<'.toNat :: v ∧ u.length = m.index := by
  induction text generalizing m with
  | nil => cases h
  | cons c cs ih =>
      rw [opener] at h
      cases hat : openerAt (c :: cs) with
      | none =>
          rw [hat] at h
          obtain ⟨m', hm', rfl⟩ := Option.map_eq_some_iff.mp h
          obtain ⟨u, v, rfl, hlen⟩ := ih hm'
          exact ⟨c :: u, v, rfl, by simp [Match.shift, hlen, Nat.add_comm]⟩
      | some found =>
          rw [hat] at h
          cases h
          unfold openerAt at hat
          split at hat
          · rename_i heq
            cases heq
            exact ⟨[], _, rfl, rfl⟩
          · cases hat

/-! ## Literals -/

theorem stays_hexUnit (n : ℕ) (h : n < 16) : Stays [hexUnit n] := by
  apply stays_plain
  · simp only [hexUnit, Char.reduceToNat]
    split_ifs <;> omega
  · simp only [hexUnit, Char.reduceToNat]
    split_ifs <;> omega
  · simp only [hexUnit, Char.reduceToNat]
    split_ifs <;> omega

theorem stays_unicodeEscape (c : ℕ) : Stays (unicodeEscape c) := by
  have hdigit : ∀ n, Stays [hexUnit (n % 16)] := fun n => stays_hexUnit _ (Nat.mod_lt _ (by decide))
  have hmark : Stays ['\\'.toNat, 'u'.toNat] := stays_escape (by decide)
  exact (((hmark.append (hdigit _)).append (hdigit _)).append (hdigit _)).append (hdigit _)

theorem stays_quoteUnit (c : ℕ) : Stays (quoteUnit c) := by
  rcases quoteUnit_cases c with ⟨p, hp, -, hletter⟩ | hnumber | ⟨hplain, hnone⟩
  · have hletters : ∀ p ∈ shortEscapes, p.2 ≠ '\n'.toNat := by decide
    rw [hletter]
    exact stays_escape (hletters p hp)
  · rw [hnumber]
    exact stays_unicodeEscape c
  · rw [hplain]
    exact stays_plain (hnone ('"'.toNat, '"'.toNat) (by decide)) (hnone ('\\'.toNat, '\\'.toNat) (by decide))
      (hnone (10, 'n'.toNat) (by decide))

theorem stays_quoteUnits (text : Text) : Stays (quoteUnits text) := by
  induction text using Lib.JsonText.quoteUnits.induct with
  | case1 => exact stays_nil
  | case2 c => exact stays_quoteUnit c
  | case3 c d cs hpair ih =>
      rw [quoteUnits, if_pos hpair]
      rw [isPair, decide_eq_true_eq] at hpair
      have hplain : ∀ e, 0xD800 ≤ e → Stays [e] := by
        intro e he
        apply stays_plain
        · simp only [Char.reduceToNat]
          omega
        · simp only [Char.reduceToNat]
          omega
        · simp only [Char.reduceToNat]
          omega
      exact ((hplain c hpair.1).append (hplain d (by omega))).append ih
  | case4 c d cs hpair ih =>
      rw [quoteUnits, if_neg hpair]
      exact (stays_quoteUnit c).append ih

/-! ## The loops -/

/-- The text is blanked for itself, and no opener starts in it. -/
def Sealed (a : Text) : Prop :=
  ∃ b, b.length = a.length ∧ (∀ x, blankLiterals (a ++ x) = b ++ blankLiterals x) ∧ Inert b

theorem sealed_nil : Sealed [] := ⟨[], rfl, fun _ => rfl, inert_nil⟩

theorem Sealed.opener {a : Text} (h : Sealed a) (x : Text) :
    Heredoc.opener (blankLiterals (a ++ x)) = (Heredoc.opener (blankLiterals x)).map (Match.shift a.length) := by
  obtain ⟨b, hlen, hblank, hinert⟩ := h
  rw [hblank, hinert, hlen]

/-- A literal in the place of the first block seals what is in front of the rest. -/
theorem Sealed.literal {a x : Text} {m : Match} (h : Sealed a) (hm : Heredoc.opener (blankLiterals x) = some m)
    (content : Text) : Sealed (a ++ x.take m.index ++ quote content) := by
  obtain ⟨b, hlen, hblank, hinert⟩ := h
  obtain ⟨u, v, huv, hu⟩ := opener_some hm
  obtain ⟨p, q, rfl, hp, hbefore, hmode⟩ := blankLiterals_lt huv
  have htake : (p ++ '<'.toNat :: q).take m.index = p := by
    rw [← hu, ← hp, List.take_left']
    rfl
  rw [htake]
  refine ⟨b ++ ((u ++ ['"'.toNat]) ++ (List.replicate (quoteUnits content).length ' '.toNat ++ ['"'.toNat])),
    ?_, fun y => ?_, ?_⟩
  · simp [quote, hlen, hp]
  · have hquote := blankBefore_next (x := '"'.toNat) (y := '<'.toNat) ⟨by decide, by decide, by decide⟩
      ⟨by decide, by decide, by decide⟩ .code p
    have hliteral := literal_of_stays (stays_quoteUnits content) y.head?
    rw [List.append_assoc, List.append_assoc, hblank, blankLiterals, blankFrom_append]
    have hhead : (quote content ++ y).head? = some '"'.toNat := rfl
    rw [hhead, hquote.1, hquote.2, hbefore, hmode, blankFrom_append, quote, hliteral.1, hliteral.2]
    simp [blankLiterals]
  · have hopener : Heredoc.opener (u ++ '<'.toNat :: v) = some m := by
      rw [← huv]
      exact hm
    refine hinert.append ((inert_before hopener hu.le).append (inert_of_ne ?_))
    intro c hc
    rcases List.mem_append.mp hc with hc | hc
    · rw [List.eq_of_mem_replicate hc]
      decide
    · rw [List.mem_singleton.mp hc]
      decide

theorem drop_length_add (a x : Text) (n : ℕ) : (a ++ x).drop (a.length + n) = x.drop n := by
  simp [List.drop_append]

theorem take_length_add (a x : Text) (n : ℕ) : (a ++ x).take (a.length + n) = a ++ x.take n := by
  simp [List.take_append]

/-- Behind two sealed texts the loops go on alike. -/
theorem loops_agree (input : Text) (n : ℕ) {a b : Text} (ha : Sealed a) (hb : Sealed b) (x : Text)
    (heredocs : List DisplayHeredoc) :
    (expandFrom n (a ++ x)).found = (protectFrom input n (b ++ x) heredocs).found ∧
      ((expandFrom n (a ++ x)).error.isSome = (protectFrom input n (b ++ x) heredocs).error.isSome) := by
  induction n generalizing a b x heredocs with
  | zero => exact ⟨rfl, rfl⟩
  | succ n ih =>
      rw [expandFrom, protectFrom, ha.opener, hb.opener]
      cases hm : opener (blankLiterals x) with
      | none => exact ⟨rfl, rfl⟩
      | some m =>
          simp only [Option.map_some, Match.shift, Nat.add_assoc, drop_length_add, take_length_add]
          cases terminator m.group true (x.drop (m.index + m.size)) with
          | none => exact ⟨rfl, rfl⟩
          | some tm =>
              have hnext := ih (ha.literal hm ((x.drop (m.index + m.size)).take tm.index))
                (hb.literal hm (uniqueToken (b ++ x) heredocs.length))
                (tm.group ++ x.drop (m.index + (m.size + (tm.index + tm.size))))
              simp only [List.append_assoc] at hnext ⊢
              exact ⟨congrArg _ (hnext _).1, (hnext _).2⟩

/-- The blocks that the two paths find are the same, and both report an error or neither does. -/
theorem same_heredocs (input : Text) :
    (expandHeredocs input).found = (protectDisplayHeredocs input).found ∧
      ((expandHeredocs input).error.isSome ↔ (protectDisplayHeredocs input).error.isSome) := by
  obtain ⟨hfound, herror⟩ := loops_agree input HEREDOC_MAX sealed_nil sealed_nil input []
  exact ⟨hfound, Bool.eq_iff_iff.mp herror⟩

end Elpis.Heredoc
