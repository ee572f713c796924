import Elpis.Js.Order
import Elpis.Sandbox.HeredocPrograms

/-!
# Restoring what was shown

`restoreDisplayHeredocs` of `src/lib/heredoc-display.ts`: each placeholder of the formatted code is
replaced by the source of its block. Which texts come back from `protectDisplayHeredocs` is a
matter of three things: of a placeholder that stands in the body of an earlier block, of the
patterns with `$` that `String.replace` reads in a source, and of the `\r` that ends a line.
-/

namespace Elpis.Heredoc

open Elpis.Js Elpis.Jslex
open Elpis.Lib.JsonText (quoteUnit quoteUnits quote unicodeEscape isPair shortEscapes quoteUnit_cases)
open Elpis.Lib.Tags (cut Foremost append_of_cut foremost_of_cut cut_of_foremost cut_eq_none)

/-! ## The replacement -/

/-- What a pattern of a replacement stands for. -/
def pattern (matched before behind : Text) : ℕ → ℕ → Option Text
  | 36, 36 => some ['$'.toNat]
  | 36, 38 => some matched
  | 36, 96 => some before
  | 36, 39 => some behind
  | _, _ => none

/-- `GetSubstitution`, where the searched text is a string. -/
def substitution (matched before behind : Text) : Text → Text
  | [] => []
  | [c] => [c]
  | c :: d :: cs =>
      match pattern matched before behind c d with
      | some text => text ++ substitution matched before behind cs
      | none => c :: substitution matched before behind (d :: cs)

/-- `code.replace(searched, replacement)`, where the code includes it. -/
def replaceFirst (searched replacement code : Text) : Option Text :=
  (cut searched code).map (fun (before, behind) =>
    before ++ (substitution searched before behind replacement ++ behind))

def singleQuoted (token : Text) : Text := '\x27'.toNat :: (token ++ ['\x27'.toNat])

/-- The error is what is thrown. -/
def restoreDisplayHeredocs (input : Text) : List DisplayHeredoc → Except Text Text
  | [] => .ok input
  | heredoc :: heredocs =>
      match replaceFirst (quote heredoc.token) heredoc.source input with
      | some code => restoreDisplayHeredocs code heredocs
      | none =>
          match replaceFirst (singleQuoted heredoc.token) heredoc.source input with
          | some code => restoreDisplayHeredocs code heredocs
          | none => .error (codeUnits "formatted code lost heredoc placeholder " ++ heredoc.token)

/-! ## Rounds -/

/-- A text as one round of `protectDisplayHeredocs` takes it apart. -/
structure Round where
  plain : Text
  source : Text
  /-- The rest of the terminator's line. -/
  line : Text
  /-- The `\r` that ends it, which is lost. -/
  carriage : Text
  rest : Text

def round (text : Text) : Option Round :=
  (opener (blankLiterals text)).bind (fun m =>
    let rest := text.drop (m.index + m.size)
    (terminator m.group true rest).map (fun tm =>
      let returns := ((rest.drop tm.index).take tm.size).getLast? = some '\r'.toNat
      { plain := text.take m.index
        source := (text.drop m.index).take
          (m.size + tm.index + (tm.size - tm.group.length - if returns then 1 else 0))
        line := tm.group
        carriage := if returns then ['\r'.toNat] else []
        rest := text.drop (m.index + m.size + tm.index + tm.size) }))

/-- How `protectDisplayHeredocs` reads a text behind `front`: the text as it is shown, and what is
kept for it. -/
inductive Protects : ℕ → Text → Text → Text → List DisplayHeredoc → Prop
  | last (index front) {text} (none_left : opener (blankLiterals text) = none) : Protects index front text text []
  | block {index front text r shown heredocs} (found : round text = some r)
      (behind : Protects (index + 1) (front ++ r.plain ++ quote (uniqueToken (front ++ text) index))
        (r.line ++ r.rest) shown heredocs) :
      Protects index front text (r.plain ++ (quote (uniqueToken (front ++ text) index) ++ shown))
        (⟨uniqueToken (front ++ text) index, r.source⟩ :: heredocs)

/-! ## What a round finds -/

/-- The parts of a text that a round takes apart. -/
structure Round.Parts (r : Round) (text : Text) : Prop where
  split : text = r.plain ++ (r.source ++ (r.line ++ (r.carriage ++ r.rest)))
  opens : r.source.head? = some '<'.toNat
  breaks : '\n'.toNat ∈ r.source
  closes : ∃ s c, r.source = s ++ [c] ∧ isTagPart c = true
  lastLine : ∃ s e last, r.source = s ++ e :: last ∧ isLineTerminator e = true ∧ '"'.toNat ∉ last
  line : ∀ c ∈ r.line, isTrailer c = true
  carriage : r.carriage = [] ∨ r.carriage = ['\r'.toNat]

theorem opener_split {text : Text} {m : Match} (h : opener text = some m) :
    ∃ u head v, text = u ++ (head ++ v) ∧ u.length = m.index ∧ head.length = m.size ∧
      openerAt (head ++ v) = some (m.group, v) := by
  induction text generalizing m with
  | nil => cases h
  | cons c cs ih =>
      rw [opener] at h
      cases hat : openerAt (c :: cs) with
      | some found =>
          rw [hat] at h
          cases h
          obtain ⟨head, htext, -⟩ := openerAt_some hat
          refine ⟨[], head, found.2, htext, rfl, ?_, by rw [← htext]; exact hat⟩
          rw [Match.first, htext, List.length_append, Nat.add_sub_cancel]
      | none =>
          rw [hat] at h
          obtain ⟨m', hm', rfl⟩ := Option.map_eq_some_iff.mp h
          obtain ⟨u, head, v, rfl, hu, hhead, hfound⟩ := ih hm'
          exact ⟨c :: u, head, v, rfl, by simp [Match.shift, hu, Nat.add_comm], hhead, hfound⟩

theorem terminator_split {tag text : Text} {start : Bool} {m : Match} (h : terminator tag start text = some m) :
    ∃ body line rest, text = body ++ line ∧ body.length = m.index ∧ line.length - rest.length = m.size ∧
      terminatorAt tag line = some (m.group, rest) ∧ body.getLast?.elim start isLineTerminator = true := by
  induction text generalizing start m with
  | nil => cases h
  | cons c cs ih =>
      rw [terminator] at h
      cases hat : (if start then terminatorAt tag (c :: cs) else none) with
      | some found =>
          rw [hat] at h
          cases h
          cases start with
          | false => cases hat
          | true => exact ⟨[], c :: cs, found.2, rfl, rfl, rfl, hat, rfl⟩
      | none =>
          rw [hat] at h
          obtain ⟨m', hm', rfl⟩ := Option.map_eq_some_iff.mp h
          obtain ⟨body, line, rest, rfl, hbody, hsize, hfound, hline⟩ := ih hm'
          refine ⟨c :: body, line, rest, rfl, by simp [Match.shift, hbody, Nat.add_comm], hsize, hfound, ?_⟩
          rw [List.getLast?_cons]
          cases hlast : body.getLast? with
          | none => simpa [hlast] using hline
          | some l => simpa [hlast] using hline

theorem lineEnd_parts (text : Text) :
    text = lineEnd text ∨ text = '\r'.toNat :: lineEnd text ∧ (lineEnd text).head?.all isLineTerminator = true := by
  unfold lineEnd
  split
  · split
    · rename_i hall
      exact Or.inr ⟨rfl, hall⟩
    · exact Or.inl rfl
  · exact Or.inl rfl

theorem terminatorAt_parts {tag line trailer rest : Text} (h : terminatorAt tag line = some (trailer, rest)) :
    ∃ gap carriage, line = gap ++ (tag ++ (trailer ++ (carriage ++ rest))) ∧ (∀ c ∈ gap, isGap c = true) ∧
      (∀ c ∈ trailer, isTrailer c = true) ∧ (carriage = [] ∨ carriage = ['\r'.toNat]) := by
  rw [terminatorAt] at h
  simp only at h
  split at h
  · rename_i hprefix
    obtain ⟨behind, hbehind⟩ := List.isPrefixOf_iff_prefix.mp hprefix
    split at h
    · cases h
    · rw [← hbehind, List.drop_left] at h
      cases h
      obtain ⟨carriage, hend, hcarriage⟩ : ∃ carriage, behind.dropWhile isTrailer =
          carriage ++ lineEnd (behind.dropWhile isTrailer) ∧ (carriage = [] ∨ carriage = ['\r'.toNat]) := by
        rcases lineEnd_parts (behind.dropWhile isTrailer) with hend | ⟨hend, -⟩
        · exact ⟨[], hend, Or.inl rfl⟩
        · exact ⟨['\r'.toNat], hend, Or.inr rfl⟩
      refine ⟨line.takeWhile isGap, carriage, ?_, fun c hc => List.mem_takeWhile_imp hc,
        fun c hc => List.mem_takeWhile_imp hc, hcarriage⟩
      rw [← hend, List.takeWhile_append_dropWhile, hbehind, List.takeWhile_append_dropWhile]
  · cases h

/-- The part of a text that was blanked to a part of the blanked one. -/
theorem blankFrom_split {mode : Mode} {text u x : Text} (h : blankFrom mode text = u ++ x) :
    ∃ p w, text = p ++ w ∧ p.length = u.length ∧ blankBefore mode p w.head? = u ∧
      blankFrom (modeBehind mode p w.head?) w = x := by
  have hlen := congrArg List.length h
  rw [length_blankFrom, List.length_append] at hlen
  have hp : (text.take u.length).length = u.length := List.length_take_of_le (by omega)
  rw [← List.take_append_drop u.length text, blankFrom_append] at h
  obtain ⟨hu, hx⟩ := List.append_inj h (by rw [length_blankBefore, hp])
  exact ⟨_, _, (List.take_append_drop u.length text).symm, hp, hu, hx⟩

theorem lex_newline {mode : Mode} {c : ℕ} {next : Option ℕ} (h : (lex mode c next).1 = '\n'.toNat) :
    c = '\n'.toNat := by
  cases mode <;> simp only [lex, quoted, inTemplate, blank] at h <;> split_ifs at h <;> simp_all

theorem newline_of_blankBefore {mode : Mode} {text s : Text} {next : Option ℕ}
    (h : blankBefore mode text next = s ++ ['\n'.toNat]) : ∃ front, text = front ++ ['\n'.toNat] := by
  induction text generalizing mode s with
  | nil => exact absurd h.symm (by simp [blankBefore])
  | cons c cs ih =>
      rw [blankBefore] at h
      cases s with
      | nil =>
          obtain ⟨hc, hcs⟩ := List.cons.inj h
          have hlen := congrArg List.length hcs
          rw [length_blankBefore] at hlen
          exact ⟨[], by rw [lex_newline hc, List.length_eq_zero_iff.mp hlen]; rfl⟩
      | cons d s =>
          obtain ⟨front, rfl⟩ := ih (List.cons.inj h).2
          exact ⟨c :: front, rfl⟩

theorem opener_unblanked {mode : Mode} {front head v tag : Text} {next : Option ℕ}
    (hfront : blankBefore mode front next = head) (hat : openerAt (head ++ v) = some (tag, v)) :
    front.head? = some '<'.toNat ∧ (∃ s, front = s ++ ['\n'.toNat]) ∧ isTag tag = true := by
  obtain ⟨gap, mark, hopening, htag, -, hmark⟩ := openerAt_parts hat
  obtain rfl : head = 60 :: 60 :: 60 :: (tag ++ (gap ++ mark)) :=
    List.append_cancel_right (hopening.trans (by simp))
  have hlast : ∃ s, blankBefore mode front next = s ++ ['\n'.toNat] := by
    rw [hfront]
    rcases hmark with rfl | rfl
    · exact ⟨60 :: 60 :: 60 :: (tag ++ gap), by simp⟩
    · exact ⟨60 :: 60 :: 60 :: (tag ++ (gap ++ ['\r'.toNat])), by simp⟩
  refine ⟨?_, newline_of_blankBefore hlast.choose_spec, htag⟩
  cases front with
  | nil => cases hfront
  | cons c cs =>
      rw [blankBefore] at hfront
      rw [(mode_of_lt (List.head_eq_of_cons_eq hfront)).2]
      rfl

/-- A terminator's line ends with a `\r` just where the pattern takes one. -/
theorem returns_iff {gap tag trailer carriage : Text} (htag : isTag tag = true)
    (htrailer : ∀ c ∈ trailer, isTrailer c = true) (hcarriage : carriage = [] ∨ carriage = ['\r'.toNat]) :
    (gap ++ (tag ++ (trailer ++ carriage))).getLast? = some '\r'.toNat ↔ carriage = ['\r'.toNat] := by
  rcases hcarriage with rfl | rfl
  · refine iff_of_false ?_ (by simp)
    obtain ⟨c, cs, rfl, -⟩ := isTag_cons htag
    intro hlast
    rw [List.append_nil, List.getLast?_append_of_ne_nil _ (by simp)] at hlast
    rcases List.mem_append.mp (List.mem_of_getLast? hlast) with hin | hin
    · exact absurd (isTag_parts htag _ hin) (by decide)
    · exact absurd (htrailer _ hin) (by decide)
  · refine iff_of_true ?_ rfl
    rw [← List.append_assoc, ← List.append_assoc, List.getLast?_concat]

/-- What a round computes from what the patterns match. -/
theorem round_eq {p front body gap tag trailer carriage behind : Text} (htag : isTag tag = true)
    (htrailer : ∀ c ∈ trailer, isTrailer c = true) (hcarriage : carriage = [] ∨ carriage = ['\r'.toNat])
    (hopener : opener (blankLiterals (p ++ (front ++ (body ++ (gap ++ (tag ++ (trailer ++ (carriage ++ behind)))))))) =
      some ⟨p.length, front.length, tag⟩)
    (hterminator : terminator tag true (body ++ (gap ++ (tag ++ (trailer ++ (carriage ++ behind))))) =
      some ⟨body.length, (gap ++ (tag ++ (trailer ++ carriage))).length, trailer⟩) :
    round (p ++ (front ++ (body ++ (gap ++ (tag ++ (trailer ++ (carriage ++ behind))))))) =
      some ⟨p, front ++ (body ++ (gap ++ tag)), trailer, carriage, behind⟩ := by
  have hline : gap ++ (tag ++ (trailer ++ (carriage ++ behind))) =
      (gap ++ (tag ++ (trailer ++ carriage))) ++ behind := by simp
  have hsource : front.length + body.length +
      ((gap ++ (tag ++ (trailer ++ carriage))).length - trailer.length - carriage.length) =
        (front ++ (body ++ (gap ++ tag))).length := by
    simp only [List.length_append]
    omega
  have hreturns := @returns_iff gap tag trailer carriage htag htrailer hcarriage
  have hlast : (if (gap ++ (tag ++ (trailer ++ carriage))).getLast? = some '\r'.toNat then 1 else 0) =
      carriage.length := by
    rcases hcarriage with rfl | rfl
    · rw [if_neg (fun hr => absurd (hreturns.mp hr) (by simp))]
      rfl
    · rw [if_pos (hreturns.mpr rfl)]
      rfl
  have hkept : (if (gap ++ (tag ++ (trailer ++ carriage))).getLast? = some '\r'.toNat then ['\r'.toNat] else []) =
      carriage := by
    rcases hcarriage with rfl | rfl
    · rw [if_neg (fun hr => absurd (hreturns.mp hr) (by simp))]
    · rw [if_pos (hreturns.mpr rfl)]
  have htake : (gap ++ (tag ++ (trailer ++ carriage)) ++ behind).take
      (gap ++ (tag ++ (trailer ++ carriage))).length = gap ++ (tag ++ (trailer ++ carriage)) := List.take_left
  have htext : front ++ (body ++ (gap ++ (tag ++ (trailer ++ carriage)) ++ behind)) =
      (front ++ (body ++ (gap ++ tag))) ++ (trailer ++ (carriage ++ behind)) := by simp
  have hdrop : (p ++ (front ++ (body ++ (gap ++ (tag ++ (trailer ++ carriage)) ++ behind)))).drop
      (p.length + front.length + body.length + (gap ++ (tag ++ (trailer ++ carriage))).length) = behind := by
    rw [Nat.add_assoc, Nat.add_assoc, drop_length_add, drop_length_add, drop_length_add, List.drop_left]
  rw [round, hopener]
  simp only [Option.bind_some, drop_length_add, List.drop_left, hterminator, Option.map_some]
  rw [hline, htake, hlast, hkept, hsource, hdrop, List.take_left, htext, List.take_left]

theorem round_parts {text : Text} {r : Round} (h : round text = some r) : r.Parts text := by
  have hround := h
  obtain ⟨⟨index, size, tag⟩, hm, hr⟩ := Option.bind_eq_some_iff.mp h
  obtain ⟨⟨tindex, tsize, trailer⟩, htm, -⟩ := Option.map_eq_some_iff.mp hr
  have hopener := hm
  obtain ⟨u, head, v, hblank, hu, hhead, hat⟩ := opener_split hm
  obtain ⟨p, w, rfl, hp, -, hw⟩ := blankFrom_split hblank
  obtain ⟨front, rest, rfl, hfront, hblanked, -⟩ := blankFrom_split hw
  obtain ⟨hopens, ⟨opening, hbreaks⟩, htag⟩ : front.head? = some '<'.toNat ∧ (∃ s, front = s ++ ['\n'.toNat]) ∧
      isTag tag = true := opener_unblanked hblanked hat
  obtain rfl : p.length = index := hp.trans hu
  obtain rfl : front.length = size := hfront.trans hhead
  simp only [drop_length_add, List.drop_left] at htm
  clear h hr hm hblank hw hblanked hu hp hhead hfront hat
  obtain ⟨body, line, behind, rfl, rfl, rfl, hat, hstart⟩ := terminator_split htm
  obtain ⟨gap, carriage, rfl, hgap, htrailer, hcarriage⟩ : ∃ gap carriage,
      line = gap ++ (tag ++ (trailer ++ (carriage ++ behind))) ∧ (∀ c ∈ gap, isGap c = true) ∧
        (∀ c ∈ trailer, isTrailer c = true) ∧ (carriage = [] ∨ carriage = ['\r'.toNat]) := terminatorAt_parts hat
  -- what the pattern matched is the line without what is behind it
  have hsize : (gap ++ (tag ++ (trailer ++ (carriage ++ behind)))).length - behind.length =
      (gap ++ (tag ++ (trailer ++ carriage))).length := by
    simp only [List.length_append]
    omega
  rw [hsize] at htm
  obtain rfl := Option.some.inj (hround.symm.trans (round_eq htag htrailer hcarriage hopener htm))
  obtain ⟨init, d, hd⟩ : ∃ init d, tag = init ++ [d] := by
    obtain ⟨c, cs, rfl, -⟩ := isTag_cons htag
    exact ⟨_, _, (List.dropLast_append_getLast (List.cons_ne_nil c cs)).symm⟩
  refine ⟨by simp, ?_, ?_, ⟨front ++ (body ++ (gap ++ init)), d, ?_, ?_⟩, ?_, htrailer, hcarriage⟩
  · rw [List.head?_append, hopens]
    rfl
  · rw [hbreaks]
    simp
  · rw [hd]
    simp
  · exact isTag_parts htag d (by rw [hd]; simp)
  · -- the tag's line begins behind the body, or behind the opener
    have hquote : '"'.toNat ∉ gap ++ tag := by
      intro hin
      rcases List.mem_append.mp hin with hin | hin
      · exact absurd (hgap _ hin) (by decide)
      · exact absurd (isTag_parts htag _ hin) (by decide)
    rcases List.eq_nil_or_concat body with rfl | ⟨body, e, rfl⟩
    · exact ⟨opening, '\n'.toNat, gap ++ tag, by rw [hbreaks]; simp, rfl, hquote⟩
    · refine ⟨front ++ body, e, gap ++ tag, by simp, ?_, hquote⟩
      simpa using hstart

/-- One round of the loop. -/
theorem protectFrom_round (input : Text) (n : ℕ) {front text : Text} {r : Round} (heredocs : List DisplayHeredoc)
    (hfront : Sealed front) (hr : round text = some r) :
    let token := uniqueToken (front ++ text) heredocs.length
    let next := protectFrom input n (front ++ r.plain ++ quote token ++ (r.line ++ r.rest))
      (heredocs ++ [⟨token, r.source⟩])
    Sealed (front ++ r.plain ++ quote token) ∧
      (protectFrom input (n + 1) (front ++ text) heredocs).error = next.error ∧
      (protectFrom input (n + 1) (front ++ text) heredocs).code = next.code ∧
      (protectFrom input (n + 1) (front ++ text) heredocs).heredocs = next.heredocs := by
  obtain ⟨m, hm, hfound⟩ := Option.bind_eq_some_iff.mp hr
  obtain ⟨tm, htm, rfl⟩ := Option.map_eq_some_iff.mp hfound
  refine ⟨hfront.literal hm _, ?_⟩
  have hsource : ∀ k, front.length + (m.index + (m.size + (tm.index + k))) - (front.length + m.index) =
      m.size + (tm.index + k) := by
    intro k
    omega
  rw [protectFrom, hfront.opener, hm]
  simp only [Option.map_some, Match.shift, Nat.add_assoc, drop_length_add, take_length_add, htm, hsource,
    List.append_assoc]
  exact ⟨trivial, trivial, trivial⟩

theorem protectFrom_last (input : Text) (n : ℕ) {front text : Text} (heredocs : List DisplayHeredoc)
    (hfront : Sealed front) (hnone : opener (blankLiterals text) = none) :
    protectFrom input (n + 1) (front ++ text) heredocs = ⟨front ++ text, heredocs, none, []⟩ := by
  rw [protectFrom, hfront.opener, hnone]
  rfl

theorem protectFrom_refused (input : Text) (n : ℕ) {front text : Text} (heredocs : List DisplayHeredoc)
    (hfront : Sealed front) (hopener : opener (blankLiterals text) ≠ none) (hnone : round text = none) :
    (protectFrom input (n + 1) (front ++ text) heredocs).error ≠ none := by
  obtain ⟨m, hm⟩ := Option.ne_none_iff_exists'.mp hopener
  have hterminator : terminator m.group true (text.drop (m.index + m.size)) = none := by
    rw [round, hm, Option.bind_some, Option.map_eq_none_iff] at hnone
    exact hnone
  rw [protectFrom, hfront.opener, hm]
  simp only [Option.map_some, Match.shift, Nat.add_assoc, drop_length_add, hterminator]
  simp

variable {heredocs : List DisplayHeredoc}

theorem protectFrom_protects (input : Text) {n : ℕ} {front text : Text}
    (hfront : Sealed front) (h : (protectFrom input n (front ++ text) heredocs).error = none) :
    ∃ shown kept, Protects heredocs.length front text shown kept ∧
      (protectFrom input n (front ++ text) heredocs).code = front ++ shown ∧
      (protectFrom input n (front ++ text) heredocs).heredocs = heredocs ++ kept := by
  induction n generalizing front text heredocs with
  | zero => cases h
  | succ n ih =>
      cases hr : round text with
      | none =>
          have hnone : opener (blankLiterals text) = none := by
            by_contra hopener
            exact protectFrom_refused input n heredocs hfront hopener hr h
          rw [protectFrom_last input n heredocs hfront hnone]
          exact ⟨text, [], .last _ _ hnone, rfl, (List.append_nil _).symm⟩
      | some r =>
          obtain ⟨hsealed, herror, hcode, hheredocs⟩ := protectFrom_round input n heredocs hfront hr
          rw [herror] at h
          obtain ⟨shown, kept, hprotects, hshown, hkept⟩ := ih hsealed h
          rw [List.length_append] at hprotects
          refine ⟨_, _, .block hr hprotects, ?_, ?_⟩
          · rw [hcode, hshown, List.append_assoc, List.append_assoc]
          · rw [hheredocs, hkept, List.append_assoc]
            rfl

/-! ## Substitutions -/

/-- A unit of no pattern, and not one that the loop loses. -/
def isSolid (c : ℕ) : Bool :=
  decide (c ≠ '$'.toNat ∧ c ≠ '&'.toNat ∧ c ≠ '`'.toNat ∧ c ≠ '\x27'.toNat ∧ c ≠ '\r'.toNat)

def solid (text : Text) : ℕ := (text.filter isSolid).length

theorem solid_append (x y : Text) : solid (x ++ y) = solid x + solid y := by
  rw [solid, List.filter_append, List.length_append]
  rfl

theorem pattern_some {matched before behind text : Text} {c d : ℕ}
    (h : pattern matched before behind c d = some text) : isSolid c = false ∧ isSolid d = false := by
  unfold pattern at h
  split at h <;> first | decide | cases h

/-- Nothing solid is taken away. -/
theorem substitution_sublist (matched before behind text : Text) :
    (text.filter isSolid).Sublist ((substitution matched before behind text).filter isSolid) := by
  induction text using substitution.induct matched before behind with
  | case1 => exact List.Sublist.refl _
  | case2 c => exact List.Sublist.refl _
  | case3 c d cs text hp ih =>
      obtain ⟨hc, hd⟩ := pattern_some hp
      rw [substitution, hp, List.filter_cons_of_neg (by simp [hc]), List.filter_cons_of_neg (by simp [hd])]
      simp only [List.filter_append]
      exact ih.trans (List.sublist_append_right _ _)
  | case4 c d cs hp ih =>
      rw [substitution, hp]
      simp only
      by_cases hc : isSolid c = true
      · rw [List.filter_cons_of_pos hc, List.filter_cons_of_pos hc]
        exact ih.cons_cons c
      · rw [List.filter_cons_of_neg hc, List.filter_cons_of_neg hc]
        exact ih

theorem substitution_concat (matched before behind text : Text) {e : ℕ} (he : isSolid e = true) :
    substitution matched before behind (text ++ [e]) = substitution matched before behind text ++ [e] := by
  have hlast : ∀ c, pattern matched before behind c e = none := by
    intro c
    by_contra h
    obtain ⟨text, htext⟩ := Option.ne_none_iff_exists'.mp h
    rw [(pattern_some htext).2] at he
    cases he
  induction text using substitution.induct matched before behind with
  | case1 => rfl
  | case2 c =>
      simp [substitution, hlast]
  | case3 c d cs text hp ih =>
      rw [List.cons_append, List.cons_append, substitution, substitution, hp]
      simp only
      rw [ih, List.append_assoc]
  | case4 c d cs hp ih =>
      rw [List.cons_append, List.cons_append, substitution, substitution, hp]
      simp only
      rw [← List.cons_append, ih]
      rfl

theorem substitution_opens {matched before behind text : Text} (h : text.head? = some '<'.toNat) :
    (substitution matched before behind text).head? = some '<'.toNat := by
  match text, h with
  | [_], h => exact h
  | _ :: _ :: _, h =>
      cases h
      rfl

/-! ## Replacing one placeholder after another -/

theorem solid_quoteUnit (c : ℕ) : solid [c] ≤ solid (quoteUnit c) := by
  have hescape : quoteUnit c = [c] ∨ ∃ rest, quoteUnit c = '\\'.toNat :: rest := by
    rcases quoteUnit_cases c with ⟨p, -, -, hletter⟩ | hnumber | ⟨hplain, -⟩
    · exact Or.inr ⟨_, hletter⟩
    · exact Or.inr ⟨_, hnumber⟩
    · exact Or.inl hplain
  rcases hescape with hsame | ⟨rest, hrest⟩
  · rw [hsame]
  · have hback : solid ('\\'.toNat :: rest) = 1 + solid rest := solid_append ['\\'.toNat] rest
    have hone : solid [c] ≤ 1 := List.length_filter_le _ _
    rw [hrest, hback]
    omega

theorem solid_quoteUnits (text : Text) : solid text ≤ solid (quoteUnits text) := by
  induction text using Lib.JsonText.quoteUnits.induct with
  | case1 => exact le_rfl
  | case2 c => exact solid_quoteUnit c
  | case3 c d cs hpair ih =>
      have hboth : ∀ cs, solid (c :: d :: cs) = solid [c, d] + solid cs := fun cs => solid_append [c, d] cs
      rw [quoteUnits, if_pos hpair, hboth cs, hboth (quoteUnits cs)]
      exact Nat.add_le_add_left ih _
  | case4 c d cs hpair ih =>
      have hfirst : solid (c :: d :: cs) = solid [c] + solid (d :: cs) := solid_append [c] (d :: cs)
      rw [quoteUnits, if_neg hpair, hfirst, solid_append]
      exact Nat.add_le_add (solid_quoteUnit c) ih

theorem solid_singleQuoted (token : Text) : solid (singleQuoted token) < solid (quote token) := by
  have hsingle : solid (singleQuoted token) = solid token := by
    have hsplit := solid_append ['\x27'.toNat] (token ++ ['\x27'.toNat])
    rw [solid_append token, show solid ['\x27'.toNat] = 0 from rfl, Nat.zero_add, Nat.add_zero] at hsplit
    exact hsplit
  have hdouble : solid (quote token) = 1 + (solid (quoteUnits token) + 1) := by
    have hsplit := solid_append ['"'.toNat] (quoteUnits token ++ ['"'.toNat])
    rw [solid_append (quoteUnits token), show solid ['"'.toNat] = 1 from rfl] at hsplit
    exact hsplit
  have hle := solid_quoteUnits token
  omega

theorem solid_substitution (matched before behind text : Text) :
    solid text ≤ solid (substitution matched before behind text) :=
  (substitution_sublist matched before behind text).length_le

variable {code result : Text}

theorem restore_cons {heredoc : DisplayHeredoc}
    (h : restoreDisplayHeredocs code (heredoc :: heredocs) = .ok result) :
    ∃ searched before behind,
      (searched = quote heredoc.token ∨ searched = singleQuoted heredoc.token) ∧
      cut searched code = some (before, behind) ∧
      restoreDisplayHeredocs (before ++ (substitution searched before behind heredoc.source ++ behind)) heredocs =
        .ok result := by
  rw [restoreDisplayHeredocs, replaceFirst, replaceFirst] at h
  cases hdouble : cut (quote heredoc.token) code with
  | some parts =>
      rw [hdouble] at h
      exact ⟨_, parts.1, parts.2, Or.inl rfl, hdouble, h⟩
  | none =>
      rw [hdouble] at h
      cases hsingle : cut (singleQuoted heredoc.token) code with
      | some parts =>
          rw [hsingle] at h
          exact ⟨_, parts.1, parts.2, Or.inr rfl, hsingle, h⟩
      | none =>
          rw [hsingle] at h
          cases h

/-- What the sources bring, and what the placeholders take. -/
def brought (heredocs : List DisplayHeredoc) : ℕ := (heredocs.map (fun heredoc => solid heredoc.source)).sum

def taken (heredocs : List DisplayHeredoc) : ℕ :=
  (heredocs.map (fun heredoc => solid (quote heredoc.token))).sum

theorem solid_restored
    (h : restoreDisplayHeredocs code heredocs = .ok result) :
    solid code + brought heredocs ≤ solid result + taken heredocs := by
  induction heredocs generalizing code with
  | nil =>
      cases h
      exact le_rfl
  | cons heredoc heredocs ih =>
      obtain ⟨searched, before, behind, hsearched, hcut, hrest⟩ := restore_cons h
      have hle := ih hrest
      have hgrows := solid_substitution searched before behind heredoc.source
      have hquotes : solid searched ≤ solid (quote heredoc.token) := by
        rcases hsearched with rfl | rfl
        · exact le_rfl
        · exact (solid_singleQuoted _).le
      rw [append_of_cut hcut]
      simp only [solid_append, brought, taken, List.map_cons, List.sum_cons] at hle ⊢
      omega

/-- No more solid units come out than went in. -/
def Balanced (code : Text) (heredocs : List DisplayHeredoc) (result : Text) : Prop :=
  solid result + taken heredocs = solid code + brought heredocs

/-- A step of a balanced restoration inserts nothing solid, and finds its placeholder in double quotes. -/
theorem Balanced.next {heredoc : DisplayHeredoc}
    (hb : Balanced code (heredoc :: heredocs) result)
    (h : restoreDisplayHeredocs code (heredoc :: heredocs) = .ok result) :
    ∃ before behind source, cut (quote heredoc.token) code = some (before, behind) ∧
      source = substitution (quote heredoc.token) before behind heredoc.source ∧
      solid source = solid heredoc.source ∧
      restoreDisplayHeredocs (before ++ (source ++ behind)) heredocs = .ok result ∧
      Balanced (before ++ (source ++ behind)) heredocs result := by
  obtain ⟨searched, before, behind, hsearched, hcut, hrest⟩ := restore_cons h
  have hle := solid_restored hrest
  have hgrows := solid_substitution searched before behind heredoc.source
  rw [Balanced, append_of_cut hcut] at hb
  simp only [solid_append, brought, taken, List.map_cons, List.sum_cons] at hle hb
  rcases hsearched with rfl | rfl
  · refine ⟨before, behind, _, hcut, rfl, by omega, hrest, ?_⟩
    simp only [Balanced, solid_append, brought, taken]
    omega
  · have hquotes := solid_singleQuoted heredoc.token
    omega

/-! ## Texts that are not restored any more -/

/-- The texts differ, and not first where a placeholder may stand for a source. -/
def Apart : Text → Text → Prop
  | [], [] => False
  | c :: code, d :: result => if c = d then Apart code result else ¬(c = '"'.toNat ∧ d = '<'.toNat)
  | _, _ => True

theorem Apart.irrefl (text : Text) : ¬Apart text text := by
  induction text with
  | nil => exact id
  | cons c text ih =>
      rw [Apart, if_pos rfl]
      exact ih

theorem apart_append (front code result : Text) : Apart (front ++ code) (front ++ result) ↔ Apart code result := by
  induction front with
  | nil => exact Iff.rfl
  | cons c front ih => rw [List.cons_append, List.cons_append, Apart, if_pos rfl, ih]

/-- A source in the place of a placeholder does not bring the texts together. -/
theorem Apart.replace {before x y result : Text} (h : Apart (before ++ '"'.toNat :: x) result) :
    Apart (before ++ '<'.toNat :: y) result := by
  induction before generalizing result with
  | nil =>
      cases result with
      | nil => trivial
      | cons d result =>
          rw [List.nil_append, Apart] at h ⊢
          by_cases hlt : '<'.toNat = d
          · subst hlt
            rw [if_neg (by decide)] at h
            exact absurd ⟨rfl, rfl⟩ h
          · rw [if_neg hlt]
            rintro ⟨hquote, -⟩
            exact absurd hquote (by decide)
  | cons c before ih =>
      cases result with
      | nil => trivial
      | cons d result =>
          rw [List.cons_append, Apart] at h ⊢
          split_ifs at h ⊢ with hsame
          · exact ih h
          · exact h

theorem apart_not_restored (hapart : Apart code result)
    (hopens : ∀ heredoc ∈ heredocs, heredoc.source.head? = some '<'.toNat) (hb : Balanced code heredocs result) :
    restoreDisplayHeredocs code heredocs ≠ .ok result := by
  intro h
  induction heredocs generalizing code with
  | nil =>
      cases h
      exact Apart.irrefl _ hapart
  | cons heredoc heredocs ih =>
      obtain ⟨before, behind, source, hcut, hsource, -, hrest, hnext⟩ := hb.next h
      have hhead : source.head? = some '<'.toNat := by
        rw [hsource]
        exact substitution_opens (hopens heredoc List.mem_cons_self)
      obtain ⟨c, y, rfl⟩ := List.exists_cons_of_ne_nil (show source ≠ [] by rintro rfl; cases hhead)
      obtain rfl : c = '<'.toNat := Option.some.inj hhead
      rw [append_of_cut hcut] at hapart
      refine ih ?_ (fun heredoc hmem => hopens heredoc (List.mem_cons_of_mem _ hmem)) hnext hrest
      exact hapart.replace

theorem apart_heads {c d : ℕ} (hne : c ≠ d) (h : ¬(c = '"'.toNat ∧ d = '<'.toNat)) :
    Apart (c :: code) (d :: result) := by
  rw [Apart, if_neg hne]
  exact h

theorem apart_carriage (run : Text) (h : code.head? ≠ some '\r'.toNat) :
    Apart (run ++ code) ('\r'.toNat :: (run ++ result)) := by
  induction run with
  | nil =>
      cases code with
      | nil => trivial
      | cons c code =>
          refine apart_heads (fun hc => h (by rw [hc]; rfl)) ?_
          rintro ⟨-, hd⟩
          exact absurd hd (by decide)
  | cons c run ih =>
      by_cases hc : c = '\r'.toNat
      · subst hc
        rw [List.cons_append, Apart, if_pos rfl]
        exact ih
      · refine apart_heads hc ?_
        rintro ⟨-, hd⟩
        exact absurd hd (by decide)

/-- Two sources with the same solid units that differ. -/
theorem apart_source {x y : Text} (hsolid : x.filter isSolid = y.filter isSolid)
    (hx : x.getLast?.all isSolid = true) (hy : y.getLast?.all isSolid = true) (hne : x ≠ y) (code result : Text) :
    Apart (x ++ code) (y ++ result) := by
  have hlast : ∀ {c : ℕ} {text : Text}, (c :: text).getLast?.all isSolid = true →
      (c :: text).filter isSolid ≠ [] ∧ text.getLast?.all isSolid = true := by
    intro c text h
    rw [List.getLast?_eq_some_getLast (List.cons_ne_nil c text)] at h
    refine ⟨List.ne_nil_of_mem (List.mem_filter.mpr ⟨List.getLast_mem (List.cons_ne_nil c text), h⟩), ?_⟩
    cases text with
    | nil => rfl
    | cons d text =>
        rw [List.getLast?_eq_some_getLast (List.cons_ne_nil d text)]
        rwa [List.getLast_cons (List.cons_ne_nil d text)] at h
  induction x generalizing y with
  | nil =>
      cases y with
      | nil => exact absurd rfl hne
      | cons d y => exact absurd hsolid.symm (hlast hy).1
  | cons c x ih =>
      cases y with
      | nil => exact absurd hsolid (hlast hx).1
      | cons d y =>
          by_cases hcd : c = d
          · subst hcd
            rw [List.cons_append, List.cons_append, Apart, if_pos rfl]
            refine ih ?_ (hlast hx).2 (hlast hy).2 (fun heq => hne (by rw [heq]))
            by_cases hc : isSolid c = true
            · rw [List.filter_cons_of_pos hc, List.filter_cons_of_pos hc] at hsolid
              exact (List.cons.inj hsolid).2
            · rwa [List.filter_cons_of_neg hc, List.filter_cons_of_neg hc] at hsolid
          · refine apart_heads hcd ?_
            rintro ⟨rfl, rfl⟩
            rw [List.filter_cons_of_pos (by decide), List.filter_cons_of_pos (by decide)] at hsolid
            exact absurd (List.cons.inj hsolid).1 (by decide)

/-! ## Which texts come back -/

/-- How the part `original` of the input comes back behind `before`: the loop reads it as `text` behind
`front` and shows it as `shown`. -/
inductive Restorable : ℕ → Text → Text → Text → Text → Text → Prop
  | last {index front before text} (none_left : opener (blankLiterals text) = none) :
      Restorable index front before text text text
  | block {index front before text r source shown} (found : round text = some r)
      (foremost : Foremost (quote (uniqueToken (front ++ text) index)) (before ++ r.plain) shown)
      (dollars : substitution (quote (uniqueToken (front ++ text) index)) (before ++ r.plain) shown r.source =
        source)
      (behind : Restorable (index + 1) (front ++ r.plain ++ quote (uniqueToken (front ++ text) index))
        (before ++ r.plain ++ source) (r.line ++ r.rest) (r.line ++ (r.carriage ++ r.rest)) shown) :
      Restorable index front before text (r.plain ++ (source ++ (r.line ++ (r.carriage ++ r.rest))))
        (r.plain ++ (quote (uniqueToken (front ++ text) index) ++ shown))

theorem quote_ne_nil (text : Text) : quote text ≠ [] := List.cons_ne_nil _ _

theorem round_none {text : Text} (h : opener (blankLiterals text) = none) : round text = none := by
  rw [round, h]
  rfl

variable {front text shown : Text}

theorem restored_of_restorable {index : ℕ}
    (hp : Protects index front text shown heredocs) {before original shown' : Text}
    (hr : Restorable index front before text original shown') :
    shown' = shown ∧ restoreDisplayHeredocs (before ++ shown) heredocs = .ok (before ++ original) := by
  induction hp generalizing before original shown' with
  | last index front hnone =>
      cases hr with
      | last => exact ⟨rfl, rfl⟩
      | block found =>
          rw [round_none hnone] at found
          cases found
  | @block index front text r shown heredocs found _ ih =>
      cases hr with
      | last hnone =>
          rw [round_none hnone] at found
          cases found
      | @block _ _ _ _ _ source _ found' foremost dollars behind =>
          obtain rfl := Option.some.inj (found.symm.trans found')
          obtain ⟨hsame, hrest⟩ := ih behind
          rw [hsame] at foremost dollars
          refine ⟨by rw [hsame], ?_⟩
          have hreplace : replaceFirst (quote (uniqueToken (front ++ text) index)) r.source
              (before ++ (r.plain ++ (quote (uniqueToken (front ++ text) index) ++ shown))) =
              some (before ++ r.plain ++ (source ++ shown)) := by
            rw [replaceFirst, ← List.append_assoc, cut_of_foremost (quote_ne_nil _) foremost, ← dollars]
            rfl
          simp only [restoreDisplayHeredocs, hreplace]
          simpa using hrest

/-! ## Texts that come back -/

/-- `_*__ELPIS_HEREDOC_${index}__` in double quotes. -/
def placeholder (k index : ℕ) : Text :=
  '"'.toNat :: (List.replicate k '_'.toNat ++
    (codeUnits "__ELPIS_HEREDOC_" ++ codeUnits (toString index) ++ codeUnits "__") ++ ['"'.toNat])

/-- None of the patterns of a replacement is in the source. -/
def NoPattern (source : Text) : Prop :=
  ∀ d ∈ ['$'.toNat, '&'.toNat, '`'.toNat, '\x27'.toNat], ¬['$'.toNat, d] <:+: source

instance (source : Text) : Decidable (NoPattern source) := inferInstanceAs (Decidable (∀ d ∈ _, ¬_ <:+: source))

/-- The first block of a text, between the text in front of it and the text behind its tag. -/
structure FirstBlock (plain opening body indent tag behind : Text) : Prop where
  tag_name : isTag tag = true
  indent_gap : ∀ c ∈ indent, isGap c = true
  ends : behind.head?.any isTagPart = false
  /-- The first opener outside literals and comments, -/
  opens : opener (blankLiterals (plain ++ (opening ++ (body ++ (indent ++ (tag ++ behind)))))) =
    some ⟨plain.length, opening.length, tag⟩
  /-- and the first line behind it that its tag terminates. -/
  closes : (terminator tag true (body ++ (indent ++ (tag ++ behind)))).map Match.index = some body.length

/-- Block by block, behind the blocks of the given sources: no source has a pattern with `$`, no
earlier one has the placeholder of a block, and no `\r` ends a terminator's line. -/
inductive Intact : List Text → Text → Prop
  | last {earlier text} (none_left : opener (blankLiterals text) = none) : Intact earlier text
  | block {earlier plain opening body indent tag behind} (first : FirstBlock plain opening body indent tag behind)
      (dollars : NoPattern (opening ++ (body ++ (indent ++ tag))))
      (placeholders : ∀ source ∈ earlier, ∀ k, ¬placeholder k earlier.length <:+: source)
      (carriage : ¬Carriage behind true) (rest : Intact (earlier ++ [opening ++ (body ++ (indent ++ tag))]) behind) :
      Intact earlier (plain ++ (opening ++ (body ++ (indent ++ (tag ++ behind)))))

/-- Such a block is what a round takes, and nothing is lost. -/
theorem FirstBlock.round_eq {plain opening body indent tag behind : Text}
    (h : FirstBlock plain opening body indent tag behind) (hcarriage : ¬Carriage behind true) :
    ∃ line rest, behind = line ++ rest ∧
      round (plain ++ (opening ++ (body ++ (indent ++ (tag ++ behind))))) =
        some ⟨plain, opening ++ (body ++ (indent ++ tag)), line, [], rest⟩ := by
  have hline : ∀ c ∈ behind.takeWhile isTrailer, isTrailer c = true := fun c hc => List.mem_takeWhile_imp hc
  have hsplit : behind = behind.takeWhile isTrailer ++ behind.dropWhile isTrailer :=
    (List.takeWhile_append_dropWhile ..).symm
  have hkept : lineEnd (behind.dropWhile isTrailer) = behind.dropWhile isTrailer := by
    rcases lineEnd_parts (behind.dropWhile isTrailer) with hend | ⟨hend, hall⟩
    · exact hend.symm
    · refine absurd ⟨_, _, hsplit.trans (congrArg _ hend), hline, ?_⟩ hcarriage
      cases hrest : lineEnd (behind.dropWhile isTrailer) with
      | nil => exact Or.inr ⟨rfl, rfl⟩
      | cons c z => exact Or.inl (by rwa [hrest] at hall)
  obtain ⟨⟨index, size, trailer⟩, hterminator, rfl⟩ := Option.map_eq_some_iff.mp h.closes
  obtain ⟨body', line, rest, htext, hindex, rfl, hat, -⟩ := terminator_split hterminator
  obtain ⟨rfl, rfl⟩ := List.append_inj htext hindex.symm
  rw [terminatorAt_line h.tag_name h.indent_gap h.ends, hkept] at hat
  obtain ⟨rfl, rfl⟩ := Prod.mk.inj (Option.some.inj hat)
  generalize behind.takeWhile isTrailer = line, behind.dropWhile isTrailer = rest at *
  subst hsplit
  have hsize : (indent ++ (tag ++ (line ++ rest))).length - rest.length =
      (indent ++ (tag ++ (line ++ []))).length := by
    simp only [List.length_append, List.length_nil]
    omega
  rw [hsize] at hterminator
  have hround := @Heredoc.round_eq plain opening body indent tag line [] rest h.tag_name hline (Or.inl rfl) h.opens
    hterminator
  exact ⟨line, rest, rfl, hround⟩

theorem NoPattern.substitution_eq {source : Text} (h : NoPattern source) (matched before behind : Text) :
    substitution matched before behind source = source := by
  induction source using substitution.induct matched before behind with
  | case1 => rfl
  | case2 c => rfl
  | case3 c d cs text hp ih =>
      refine absurd hp ?_
      have hno := fun e he => (h e he) ∘ List.IsPrefix.isInfix
      unfold pattern
      split
      all_goals first | exact absurd ⟨cs, rfl⟩ (hno _ (by decide)) | exact nofun
  | case4 c d cs hp ih =>
      have hrest : NoPattern (d :: cs) := fun e he hin => h e he (hin.trans (List.suffix_cons _ _).isInfix)
      rw [substitution, hp]
      simp only [ih hrest]

/-! ## The placeholders -/

theorem freeToken_replicate (code : Text) (n : ℕ) (token : Text) :
    ∃ k, freeToken code n token = List.replicate k '_'.toNat ++ token := by
  induction n generalizing token with
  | zero => exact ⟨0, rfl⟩
  | succ n ih =>
      rw [freeToken]
      split
      · obtain ⟨k, hk⟩ := ih ('_'.toNat :: token)
        refine ⟨k + 1, hk.trans ?_⟩
        rw [List.replicate_succ', List.append_assoc]
        rfl
      · exact ⟨0, rfl⟩

theorem freeToken_absent {code token : Text} {n : ℕ} (h : code.length < token.length + n) :
    ¬freeToken code n token <:+: code := by
  induction n generalizing token with
  | zero => exact fun hin => absurd hin.length_le (not_le.mpr h)
  | succ n ih =>
      rw [freeToken]
      split
      · exact ih (by rw [List.length_cons]; omega)
      · assumption

theorem uniqueToken_absent (code : Text) (index : ℕ) : ¬uniqueToken code index <:+: code :=
  freeToken_absent (by omega)

/-- A token has the units of an identifier, and no `"`. -/
theorem uniqueToken_parts (code : Text) (index : ℕ) : ∀ c ∈ uniqueToken code index, isTagPart c = true := by
  obtain ⟨k, hk⟩ := freeToken_replicate code (code.length + 1)
    (codeUnits "__ELPIS_HEREDOC_" ++ codeUnits (toString index) ++ codeUnits "__")
  have hends : ∀ c ∈ codeUnits "__ELPIS_HEREDOC_" ++ codeUnits "__", isTagPart c = true := by decide
  intro c hc
  rw [uniqueToken, hk, List.mem_append, List.mem_append, List.mem_append] at hc
  rcases hc with hc | (hc | hc) | hc
  · rw [List.eq_of_mem_replicate hc]
    decide
  · exact hends c (List.mem_append_left _ hc)
  · have hdigit := mem_codeUnits_toString hc
    simp only [isTagPart, Bool.or_eq_true, decide_eq_true_eq]
    omega
  · exact hends c (List.mem_append_right _ hc)

theorem quoteUnit_part {c : ℕ} (h : isTagPart c = true) : quoteUnit c = [c] := by
  have hescaped : ∀ p ∈ shortEscapes, isTagPart p.1 = false := by decide
  have hlt : c < 128 := by
    simp only [isTagPart, isTagStart, Bool.or_eq_true, decide_eq_true_eq] at h
    omega
  have hnumber : ∀ d < 128, isTagPart d = true → unicodeEscape d ≠ quoteUnit d := by decide
  rcases quoteUnit_cases c with ⟨p, hp, rfl, -⟩ | hnot | ⟨hplain, -⟩
  · rw [hescaped p hp] at h
    cases h
  · exact absurd hnot.symm (hnumber c hlt h)
  · exact hplain

theorem quote_parts {token : Text} (h : ∀ c ∈ token, isTagPart c = true) :
    quote token = '"'.toNat :: (token ++ ['"'.toNat]) := by
  have hescape : quoteUnits token = token := by
    induction token using Lib.JsonText.quoteUnits.induct with
    | case1 => rfl
    | case2 c => exact quoteUnit_part (h c List.mem_cons_self)
    | case3 c d s hpair ih =>
        have hc := h c List.mem_cons_self
        simp only [isTagPart, isTagStart, Bool.or_eq_true, decide_eq_true_eq] at hc
        rw [isPair, decide_eq_true_eq] at hpair
        omega
    | case4 c d s hpair ih =>
        rw [quoteUnits, if_neg hpair, ih (fun e he => h e (List.mem_cons_of_mem _ he)),
          quoteUnit_part (h c List.mem_cons_self)]
        rfl
  rw [quote, hescape]

theorem placeholder_of_token (code : Text) (index : ℕ) :
    ∃ k, quote (uniqueToken code index) = placeholder k index := by
  obtain ⟨k, hk⟩ := freeToken_replicate code (code.length + 1)
    (codeUnits "__ELPIS_HEREDOC_" ++ codeUnits (toString index) ++ codeUnits "__")
  refine ⟨k, (quote_parts (uniqueToken_parts code index)).trans ?_⟩
  rw [uniqueToken, hk, placeholder]

/-- What a source looks like: no token stands across its beginning or its end. -/
structure SourceShape (source : Text) : Prop where
  opens : source.head? = some '<'.toNat
  lastLine : ∃ s e last, source = s ++ e :: last ∧ isLineTerminator e = true ∧ '"'.toNat ∉ last

theorem SourceShape.not_behind_quote {source a t : Text} (h : SourceShape source)
    (ht : ∀ c ∈ t, isTagPart c = true) : source ≠ a ++ '"'.toNat :: t := by
  obtain ⟨s, e, last, rfl, he, hlast⟩ := h.lastLine
  have hquote : e ≠ '"'.toNat := by
    rintro rfl
    exact absurd he (by decide)
  intro heq
  rcases List.append_eq_append_iff.mp heq with ⟨r, rfl, hr⟩ | ⟨r, rfl, hr⟩
  · cases r with
    | nil => exact hquote (List.head_eq_of_cons_eq hr)
    | cons d r => exact hlast (by rw [(List.cons.inj hr).2]; simp)
  · cases r with
    | nil => exact hquote (List.head_eq_of_cons_eq hr).symm
    | cons d r =>
        have hpart := ht e (by rw [(List.cons.inj hr).2]; simp)
        rw [isTagPart_line he] at hpart
        cases hpart

/-- A quoted token stands in front of a source that has it not, or behind it. -/
theorem token_beside {t x s y a b : Text} (ht : ∀ c ∈ t, isTagPart c = true) (hs : SourceShape s)
    (hno : ¬ '"'.toNat :: (t ++ ['"'.toNat]) <:+: s)
    (h : x ++ (s ++ y) = a ++ ('"'.toNat :: (t ++ ['"'.toNat]) ++ b)) :
    (∃ c, x = a ++ ('"'.toNat :: (t ++ ['"'.toNat]) ++ c)) ∨
      ∃ c, a = x ++ (s ++ c) ∧ y = c ++ ('"'.toNat :: (t ++ ['"'.toNat]) ++ b) := by
  have hlt : '<'.toNat ∉ '"'.toNat :: (t ++ ['"'.toNat]) := by
    intro hin
    simp only [List.mem_cons, List.mem_append, List.not_mem_nil, or_false] at hin
    rcases hin with hin | hin | hin
    · exact absurd hin (by decide)
    · exact absurd (ht _ hin) (by decide)
    · exact absurd hin (by decide)
  rcases List.append_eq_append_iff.mp h with ⟨a', rfl, hbehind⟩ | ⟨x', rfl, hbehind⟩
  · rcases List.append_eq_append_iff.mp hbehind with ⟨c, rfl, hc⟩ | ⟨s', rfl, hs'⟩
    · exact Or.inr ⟨c, rfl, hc⟩
    · rcases List.append_eq_append_iff.mp hs' with ⟨c, rfl, -⟩ | ⟨w', hw, rfl⟩
      · exact absurd ⟨a', c, by simp⟩ hno
      · cases s' with
        | nil => exact Or.inr ⟨[], by simp, by rw [hw]; simp⟩
        | cons d s' =>
            -- the rest of the source would be a quote and a part of the token
            obtain ⟨rfl, hparts⟩ := List.cons.inj hw
            rcases List.append_eq_append_iff.mp hparts with ⟨r, rfl, hr⟩ | ⟨r, rfl, -⟩
            · cases r with
              | nil =>
                  rw [List.append_nil] at hs
                  exact absurd rfl (hs.not_behind_quote ht)
              | cons e r =>
                  obtain ⟨rfl, hnil⟩ := List.cons.inj hr
                  obtain ⟨rfl, -⟩ := List.append_eq_nil_iff.mp hnil.symm
                  exact absurd ⟨a', [], by simp⟩ hno
            · exact absurd rfl (hs.not_behind_quote (fun c hc => ht c (List.mem_append_left _ hc)))
  · rcases List.append_eq_append_iff.mp hbehind with ⟨c, rfl, -⟩ | ⟨r, hw, hr⟩
    · exact Or.inl ⟨c, rfl⟩
    · cases r with
      | nil => exact Or.inl ⟨[], by rw [hw]; simp⟩
      | cons d r =>
          obtain ⟨e, s, rfl⟩ := List.exists_cons_of_ne_nil (show s ≠ [] by rintro rfl; cases hs.opens)
          obtain rfl : e = '<'.toNat := Option.some.inj hs.opens
          obtain rfl : '<'.toNat = d := List.head_eq_of_cons_eq hr
          exact absurd (by rw [hw]; simp) hlt

/-- The first part of the input, with the placeholders of its blocks and with their sources. -/
inductive Mended : Text → Text → List Text → Prop
  | nil : Mended [] [] []
  | block {front before earlier source} (h : Mended front before earlier) (plain token : Text)
      (shape : SourceShape source) :
      Mended (front ++ plain ++ token) (before ++ plain ++ source) (earlier ++ [source])

/-- A token that is in no source stands between them, and so in front of the placeholders too. -/
theorem Mended.token {front before : Text} {earlier : List Text} (h : Mended front before earlier) {t y a b : Text}
    (ht : ∀ c ∈ t, isTagPart c = true) (hno : ∀ source ∈ earlier, ¬ '"'.toNat :: (t ++ ['"'.toNat]) <:+: source)
    (heq : before ++ y = a ++ ('"'.toNat :: (t ++ ['"'.toNat]) ++ b)) :
    t <:+: front ∨ ∃ c, a = before ++ c ∧ y = c ++ ('"'.toNat :: (t ++ ['"'.toNat]) ++ b) := by
  induction h generalizing y b with
  | nil => exact Or.inr ⟨a, rfl, heq⟩
  | @block front before earlier source _ plain token shape ih =>
      have hearlier := fun source hs => hno source (List.mem_append_left _ hs)
      rw [List.append_assoc] at heq
      rcases token_beside ht shape (hno source (by simp)) heq with ⟨c, hc⟩ | ⟨c, rfl, hc⟩
      · rcases ih hearlier hc with hfront | ⟨c', -, rfl⟩
        · exact Or.inl (hfront.trans ⟨[], plain ++ token, by simp⟩)
        · exact Or.inl ⟨front ++ c' ++ ['"'.toNat], '"'.toNat :: c ++ token, by simp⟩
      · exact Or.inr ⟨c, by simp, hc⟩

theorem Mended.foremost {front before plain behind : Text} {earlier : List Text} (h : Mended front before earlier)
    {t : Text} (ht : ∀ c ∈ t, isTagPart c = true) (habsent : ¬t <:+: front ++ (plain ++ behind))
    (hno : ∀ source ∈ earlier, ¬ '"'.toNat :: (t ++ ['"'.toNat]) <:+: source) (shown : Text) :
    Foremost ('"'.toNat :: (t ++ ['"'.toNat])) (before ++ plain) shown := by
  have hquote : '"'.toNat ∉ t := fun hin => absurd (ht _ hin) (by decide)
  intro x y heq
  by_contra hlt
  rw [List.append_assoc] at heq
  rcases h.token ht hno heq with hfront | ⟨c, rfl, hc⟩
  · exact habsent (hfront.trans (List.prefix_append _ _).isInfix)
  · rw [List.length_append, List.length_append, Nat.add_le_add_iff_left] at hlt
    rcases List.append_eq_append_iff.mp hc with ⟨r, rfl, -⟩ | ⟨r, rfl, hr⟩
    · exact hlt (by simp)
    · cases r with
      | nil => exact hlt (by simp)
      | cons d r =>
          -- the token ends before the quote of its own placeholder
          simp only [List.cons_append, List.append_assoc, List.cons.injEq] at hr
          obtain ⟨rfl, hinner⟩ := hr
          rcases List.append_eq_append_iff.mp hinner with ⟨u, rfl, -⟩ | ⟨u, rfl, hu⟩
          · exact habsent ⟨front ++ c ++ ['"'.toNat], u ++ behind, by simp⟩
          · cases u with
            | nil => exact habsent ⟨front ++ c ++ ['"'.toNat], behind, by simp⟩
            | cons e u =>
                obtain rfl : '"'.toNat = e := List.head_eq_of_cons_eq hu
                exact hquote (by simp)

/-- Where the blocks are intact, each placeholder is found in its place and each source is written as
it stands. -/
theorem Intact.restorable {earlier : List Text} {text : Text} (h : Intact earlier text) {front before : Text}
    (hm : Mended front before earlier) {shown : Text}
    (hp : Protects earlier.length front text shown heredocs) :
    Restorable earlier.length front before text text shown := by
  induction h generalizing front before shown heredocs with
  | last none_left =>
      cases hp with
      | last => exact .last none_left
      | block found =>
          rw [round_none none_left] at found
          cases found
  | @block earlier plain opening body indent tag behind first dollars placeholders carriage _ ih =>
      cases hp with
      | last _ _ hnone =>
          rw [first.opens] at hnone
          cases hnone
      | @block _ _ _ r shown heredocs found hprotects =>
          obtain ⟨line, rest, rfl, hround⟩ := first.round_eq carriage
          obtain rfl := Option.some.inj (found.symm.trans hround)
          have hparts := round_parts found
          have hshape : SourceShape (opening ++ (body ++ (indent ++ tag))) := ⟨hparts.opens, hparts.lastLine⟩
          have ht := uniqueToken_parts (front ++ (plain ++ (opening ++ (body ++ (indent ++ (tag ++ (line ++ rest)))))))
            earlier.length
          have hquoted := quote_parts ht
          have hno : ∀ source ∈ earlier, ¬ '"'.toNat :: (uniqueToken (front ++ (plain ++ (opening ++ (body ++
              (indent ++ (tag ++ (line ++ rest))))))) earlier.length ++ ['"'.toNat]) <:+: source := by
            intro source hsource
            obtain ⟨k, hk⟩ := placeholder_of_token (front ++ (plain ++ (opening ++ (body ++
              (indent ++ (tag ++ (line ++ rest))))))) earlier.length
            rw [← hquoted, hk]
            exact placeholders source hsource k
          have hforemost := hm.foremost ht (uniqueToken_absent _ _) hno shown
          rw [← hquoted] at hforemost
          have hrest := ih (hm.block plain _ hshape) (by rw [List.length_append]; exact hprotects)
          rw [List.length_append] at hrest
          have hall := Restorable.block found hforemost (dollars.substitution_eq _ _ _) hrest
          simpa using hall

/-- A `\r` that the text has lost, on its first line. -/
def Lost (text original : Text) : Prop :=
  ∃ t z, text = t ++ z ∧ original = t ++ '\r'.toNat :: z ∧ ∀ c ∈ t, isTrailer c = true

theorem Round.Parts.solid_last {text : Text} {r : Round} (hr : r.Parts text) :
    r.source.getLast?.all isSolid = true := by
  obtain ⟨s, c, hclose, hc⟩ := hr.closes
  rw [hclose, List.getLast?_concat]
  simp only [isTagPart, isTagStart, Bool.or_eq_true, decide_eq_true_eq] at hc
  simp only [Option.all_some, isSolid, decide_eq_true_eq, Char.reduceToNat]
  omega

/-- A lost `\r` shows in front of a block, or is in its source. -/
theorem Lost.round {text original : Text} {r : Round} (h : Lost text original) (hr : r.Parts text) :
    (∀ code, Apart (r.plain ++ '"'.toNat :: code) original) ∨
      ∃ source, original = r.plain ++ (source ++ (r.line ++ (r.carriage ++ r.rest))) ∧
        source.filter isSolid = r.source.filter isSolid ∧ source.getLast?.all isSolid = true := by
  obtain ⟨t, z, htext, rfl, ht⟩ := h
  rw [hr.split] at htext
  rcases List.append_eq_append_iff.mp htext with ⟨t', rfl, hrest⟩ | ⟨p', hplain, rfl⟩
  · rcases List.append_eq_append_iff.mp hrest with ⟨t'', rfl, -⟩ | ⟨s', hsource, rfl⟩
    · -- the source has more than one line
      exact absurd (ht _ (List.mem_append_right _ (List.mem_append_left _ hr.breaks))) (by decide)
    · right
      refine ⟨t' ++ '\r'.toNat :: s', by simp, ?_, ?_⟩
      · rw [hsource, List.filter_append, List.filter_append, List.filter_cons_of_neg (by decide)]
      · cases s' with
        | nil =>
            rw [List.append_nil] at hsource
            exact absurd (ht _ (List.mem_append_right _ (hsource ▸ hr.breaks))) (by decide)
        | cons d s' =>
            have hlast := hr.solid_last
            rw [hsource, List.getLast?_append_of_ne_nil _ (List.cons_ne_nil d s')] at hlast
            rw [List.getLast?_append_of_ne_nil _ (List.cons_ne_nil _ _), List.getLast?_cons_cons]
            exact hlast
  · left
    intro code
    rw [hplain, List.append_assoc, apart_append]
    exact apart_carriage p' (by simp)

theorem Protects.opens {index : ℕ}
    (h : Protects index front text shown heredocs) :
    ∀ heredoc ∈ heredocs, heredoc.source.head? = some '<'.toNat := by
  induction h with
  | last => exact fun heredoc hmem => absurd hmem List.not_mem_nil
  | block found _ ih =>
      intro heredoc hmem
      rcases List.mem_cons.mp hmem with rfl | hmem
      · exact (round_parts found).opens
      · exact ih heredoc hmem

theorem Protects.solid_eq {index : ℕ}
    (h : Protects index front text shown heredocs) : solid text + taken heredocs = solid shown + brought heredocs := by
  induction h with
  | last => rfl
  | @block index front text r shown heredocs found _ ih =>
      have hr := round_parts found
      have hcarriage : solid r.carriage = 0 := by
        rcases hr.carriage with hnone | hone
        · rw [hnone]
          rfl
        · rw [hone]
          rfl
      have htext := congrArg solid hr.split
      simp only [solid_append, brought, taken, List.map_cons, List.sum_cons] at ih htext ⊢
      omega

/-- The first placeholder is the one in its place, or stands in front of it. -/
theorem token_place {token front shown before behind : Text}
    (h : Foremost (quote token) before behind)
    (hsplit : front ++ (quote token ++ shown) = before ++ (quote token ++ behind)) :
    before = front ∧ behind = shown ∨ ∃ more, front = before ++ '"'.toNat :: more := by
  rcases List.append_eq_append_iff.mp hsplit with ⟨rest, rfl, hrest⟩ | ⟨rest, rfl, hrest⟩
  · have hle := h front shown hsplit.symm
    rw [List.length_append] at hle
    obtain rfl : rest = [] := List.length_eq_zero_iff.mp (by omega)
    exact Or.inl ⟨List.append_nil _, (List.append_cancel_left hrest).symm⟩
  · cases rest with
    | nil => exact Or.inl ⟨(List.append_nil _).symm, List.append_cancel_left hrest⟩
    | cons c rest =>
        obtain rfl : '"'.toNat = c := List.head_eq_of_cons_eq hrest
        exact Or.inr ⟨rest, rfl⟩

theorem restorable_of_restored {index : ℕ}
    (hp : Protects index front text shown heredocs) {before original : Text}
    (horiginal : original = text ∨ Lost text original) (hb : Balanced (before ++ shown) heredocs (before ++ original))
    (h : restoreDisplayHeredocs (before ++ shown) heredocs = .ok (before ++ original)) :
    Restorable index front before text original shown := by
  induction hp generalizing before original with
  | last index front hnone =>
      rw [restoreDisplayHeredocs] at h
      obtain rfl := List.append_cancel_left (Except.ok.inj h)
      exact .last hnone
  | @block index front text r shown heredocs found hprotects ih =>
      have hr := round_parts found
      have hopens := hprotects.opens
      have hcases : (∀ code, Apart (r.plain ++ '"'.toNat :: code) original) ∨
          ∃ source, original = r.plain ++ (source ++ (r.line ++ (r.carriage ++ r.rest))) ∧
            source.filter isSolid = r.source.filter isSolid ∧ source.getLast?.all isSolid = true := by
        rcases horiginal with rfl | hlost
        · exact Or.inr ⟨r.source, hr.split, rfl, hr.solid_last⟩
        · exact hlost.round hr
      rcases hcases with hapart | ⟨source, rfl, hsolid, hlast⟩
      · refine absurd h (apart_not_restored ((apart_append _ _ _).mpr (hapart _)) ?_ hb)
        exact (Protects.block found hprotects).opens
      · obtain ⟨b, a, written, hcut, hwritten, hsame, hrest, hnext⟩ := hb.next h
        dsimp only at hcut hwritten hsame
        have hsplit := append_of_cut hcut
        rw [← List.append_assoc] at hsplit
        rcases token_place (foremost_of_cut hcut) hsplit with ⟨rfl, rfl⟩ | ⟨more, hearly⟩
        · by_cases hdone : written = source
          · subst hdone
            have hbehind : r.line ++ (r.carriage ++ r.rest) = r.line ++ r.rest ∨
                Lost (r.line ++ r.rest) (r.line ++ (r.carriage ++ r.rest)) := by
              rcases hr.carriage with hnone | hone
              · rw [hnone]
                exact Or.inl rfl
              · rw [hone]
                exact Or.inr ⟨r.line, r.rest, rfl, rfl, hr.line⟩
            have hresult : before ++ (r.plain ++ (written ++ (r.line ++ (r.carriage ++ r.rest)))) =
                before ++ r.plain ++ written ++ (r.line ++ (r.carriage ++ r.rest)) := by simp
            rw [hresult, ← List.append_assoc] at hrest hnext
            exact .block found (foremost_of_cut hcut) hwritten.symm (ih hbehind hnext hrest)
          · have hfilter : r.source.filter isSolid = written.filter isSolid := by
              rw [hwritten] at hsame ⊢
              exact (substitution_sublist _ _ _ _).eq_of_length hsame.symm
            have hwritten_last : written.getLast?.all isSolid = true := by
              obtain ⟨s, c, hclose, -⟩ := hr.closes
              have hc := hr.solid_last
              rw [hclose, List.getLast?_concat] at hc
              rw [hwritten, hclose, substitution_concat _ _ _ _ hc, List.getLast?_concat]
              exact hc
            have hapart := apart_source (hfilter.symm.trans hsolid.symm) hwritten_last hlast hdone a
              (r.line ++ (r.carriage ++ r.rest))
            refine absurd hrest (apart_not_restored ?_ hopens hnext)
            rw [List.append_assoc, apart_append, apart_append]
            exact hapart
        · -- the source goes where the first placeholder stands, and a quote stands there in the input
          have hopening : written.head? = some '<'.toNat := by
            rw [hwritten]
            exact substitution_opens hr.opens
          obtain ⟨c, rest, rfl⟩ := List.exists_cons_of_ne_nil (show written ≠ [] by rintro rfl; cases hopening)
          obtain rfl : c = '<'.toNat := Option.some.inj hopening
          refine absurd hrest (apart_not_restored ?_ hopens hnext)
          rw [← List.append_assoc before, hearly, List.append_assoc, apart_append]
          exact apart_heads (by decide) (by decide)

/-- Of every input that the protection accepts: it comes back where its blocks are intact. -/
theorem restored_of_intact (input : Text) (h : (protectDisplayHeredocs input).error = none) (hi : Intact [] input) :
    restoreDisplayHeredocs (protectDisplayHeredocs input).code (protectDisplayHeredocs input).heredocs = .ok input := by
  obtain ⟨shown, heredocs, hprotects, hcode, hheredocs⟩ :=
    @protectFrom_protects [] input HEREDOC_MAX [] input sealed_nil h
  have hshown : (protectDisplayHeredocs input).code = shown := hcode
  have hkept : (protectDisplayHeredocs input).heredocs = heredocs := hheredocs
  rw [hshown, hkept]
  exact (restored_of_restorable hprotects (hi.restorable .nil hprotects)).2

theorem intact_small : Intact [] (codeUnits "f(<<<E\n$1\nE, <<<F\nx\nF);") := by
  have hcarriage : ∀ behind : Text, '\r'.toNat ∉ behind → ¬Carriage behind true := by
    rintro behind hno ⟨t, z, rfl, -⟩
    exact hno (by simp)
  have hfirst := @Intact.block [] (codeUnits "f(") (codeUnits "<<<E\n") (codeUnits "$1\n") [] (codeUnits "E")
    (codeUnits ", <<<F\nx\nF);") ⟨by decide, by decide, by decide, by decide, by decide⟩ (by decide) (by simp)
    (hcarriage _ (by decide))
  refine hfirst (@Intact.block _ (codeUnits ", ") (codeUnits "<<<F\n") (codeUnits "x\n") [] (codeUnits "F")
    (codeUnits ");") ⟨by decide, by decide, by decide, by decide, by decide⟩ (by decide) ?_ (hcarriage _ (by decide))
    (.last (by decide)))
  intro source hsource k hin
  have hquote : '"'.toNat ∈ source := hin.subset List.mem_cons_self
  rw [List.mem_singleton.mp hsource] at hquote
  exact absurd hquote (by decide)

theorem restored_small :
    restoreDisplayHeredocs (protectDisplayHeredocs (codeUnits "f(<<<E\n$1\nE, <<<F\nx\nF);")).code
      (protectDisplayHeredocs (codeUnits "f(<<<E\n$1\nE, <<<F\nx\nF);")).heredocs =
        .ok (codeUnits "f(<<<E\n$1\nE, <<<F\nx\nF);") :=
  restored_of_intact _ (by decide) intact_small

/-- A text comes back just where every placeholder is first found in its own place and every source is
written as it stands in the input. -/
theorem restore_iff (input : Text) (h : (protectDisplayHeredocs input).error = none) :
    restoreDisplayHeredocs (protectDisplayHeredocs input).code (protectDisplayHeredocs input).heredocs = .ok input ↔
      ∃ shown, Restorable 0 [] [] input input shown := by
  obtain ⟨shown, heredocs, hprotects, hcode, hheredocs⟩ :=
    @protectFrom_protects [] input HEREDOC_MAX [] input sealed_nil h
  have hshown : (protectDisplayHeredocs input).code = shown := hcode
  have hkept : (protectDisplayHeredocs input).heredocs = heredocs := hheredocs
  rw [hshown, hkept]
  constructor
  · intro hrestored
    have hb : Balanced shown heredocs input := hprotects.solid_eq
    exact ⟨shown, @restorable_of_restored heredocs [] input shown 0 hprotects [] input (Or.inl rfl) hb hrestored⟩
  · rintro ⟨shown', hrestorable⟩
    exact (restored_of_restorable hprotects hrestorable).2

/-- `$$` in a body comes back as `$`. -/
theorem dollars_not_restored :
    (protectDisplayHeredocs (codeUnits "<<<E\n$$\nE")).error = none ∧
      restoreDisplayHeredocs (protectDisplayHeredocs (codeUnits "<<<E\n$$\nE")).code
        (protectDisplayHeredocs (codeUnits "<<<E\n$$\nE")).heredocs = .ok (codeUnits "<<<E\n$\nE") ∧
      codeUnits "<<<E\n$\nE" ≠ codeUnits "<<<E\n$$\nE" := by
  decide

end Elpis.Heredoc
