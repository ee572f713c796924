import Elpis.Memory.Frontmatter

/-!
# When the two patterns agree

The prefix that the consolidator keeps is read as the whole text was exactly if the frontmatter
stands between two lines that are `---` and is not blank.
-/

namespace Elpis.Memory

open Elpis.Js Elpis.Lib

/-! ## Line breaks behind white space -/

theorem breaks_space {c : Char} (h : isSpace c = true) (cs : List Char) :
    breaks (c :: cs) = breaks cs ++ if c = '\n' then [cs] else [] := by
  rw [breaks, if_pos h]

theorem breaks_other {c : Char} (h : isSpace c = false) (cs : List Char) : breaks (c :: cs) = [] := by
  rw [breaks, if_neg (by simp [h])]

/-- Behind a character that is no white space nothing matters. -/
theorem breaks_behind {c : Char} (hc : isSpace c = false) (v : List Char) :
    ∃ l : List (List Char), ∀ z, breaks (v ++ c :: z) = l.map (fun u => u ++ c :: z) := by
  induction v with
  | nil => exact ⟨[], fun z => breaks_other hc z⟩
  | cons x v ih =>
      obtain ⟨l, hl⟩ := ih
      cases hx : isSpace x with
      | false => exact ⟨[], fun z => breaks_other hx _⟩
      | true =>
          by_cases hbreak : x = '\n'
          · refine ⟨l ++ [v], fun z => ?_⟩
            rw [List.cons_append, breaks_space hx, if_pos hbreak, hl, List.map_append, List.map_singleton]
          · refine ⟨l, fun z => ?_⟩
            rw [List.cons_append, breaks_space hx, if_neg hbreak, hl, List.append_nil]

/-- A line break, with a carriage return or without. -/
def IsNewline (nl : List Char) : Prop := nl = ['\n'] ∨ nl = ['\r', '\n']

theorem breaks_newline {nl : List Char} (h : IsNewline nl) (cs : List Char) : breaks (nl ++ cs) ≠ [] := by
  rcases h with rfl | rfl
  · show breaks ('\n' :: cs) ≠ []
    rw [breaks_space (by decide), if_pos rfl]
    simp
  · show breaks ('\r' :: '\n' :: cs) ≠ []
    rw [breaks_space (by decide), breaks_space (by decide), if_pos rfl]
    simp

/-- Behind blank lines the longest match leaves what is no white space. -/
theorem breaks_blank {c : Char} (hc : isSpace c = false) {w : List Char} (hw : ∀ x ∈ w, isSpace x = true)
    (z : List Char) : ∃ l, breaks (w ++ '\n' :: c :: z) = (c :: z) :: l := by
  induction w with
  | nil =>
      refine ⟨[], ?_⟩
      rw [List.nil_append, breaks_space (by decide), breaks_other hc, if_pos rfl]
      rfl
  | cons x w ih =>
      obtain ⟨l, hl⟩ := ih (fun y hy => hw y (List.mem_cons_of_mem x hy))
      refine ⟨l ++ if x = '\n' then [w ++ '\n' :: c :: z] else [], ?_⟩
      rw [List.cons_append, breaks_space (hw x List.mem_cons_self), hl, List.cons_append]

/-! ## The first place where a pattern matches -/

section UpTo

variable {stop : List Char → Option (List Char)} {cs g r : List Char}

theorem upTo_of_some {cs r : List Char} (h : stop cs = some r) : upTo stop cs = some ([], r) := by
  cases cs with
  | nil => simp [upTo, h]
  | cons c cs => simp [upTo, h]

theorem upTo_cons_of_none {c : Char} (h : stop (c :: cs) = none) :
    upTo stop (c :: cs) = (upTo stop cs).map (fun (inside, rest) => (c :: inside, rest)) := by
  simp [upTo, h]

theorem upTo_sound (h : upTo stop cs = some (g, r)) : ∃ s, cs = g ++ s ∧ stop s = some r := by
  induction cs generalizing g with
  | nil =>
      obtain ⟨rest, hrest, heq⟩ := Option.map_eq_some_iff.mp h
      cases heq
      exact ⟨[], rfl, hrest⟩
  | cons c cs ih =>
      cases hstop : stop (c :: cs) with
      | some rest =>
          rw [upTo_of_some hstop] at h
          cases h
          exact ⟨c :: cs, rfl, hstop⟩
      | none =>
          rw [upTo_cons_of_none hstop] at h
          obtain ⟨⟨inside, rest⟩, hin, heq⟩ := Option.map_eq_some_iff.mp h
          cases heq
          obtain ⟨s, rfl, hs⟩ := ih hin
          exact ⟨s, rfl, hs⟩

/-- Where the pattern matches somewhere it is found there or before. -/
theorem upTo_complete {s : List Char} (hs : (stop s).isSome) :
    ∀ g' : List Char, ∃ g r, upTo stop (g' ++ s) = some (g, r) ∧ g.length ≤ g'.length
  | [] => by
      obtain ⟨r, hr⟩ := Option.isSome_iff_exists.mp hs
      exact ⟨[], r, upTo_of_some hr, le_rfl⟩
  | c :: g' => by
      cases hstop : stop (c :: (g' ++ s)) with
      | some r => exact ⟨[], r, upTo_of_some hstop, Nat.zero_le _⟩
      | none =>
          obtain ⟨g, r, hupTo, hlength⟩ := upTo_complete hs g'
          refine ⟨c :: g, r, ?_, Nat.succ_le_succ hlength⟩
          rw [List.cons_append, upTo_cons_of_none hstop, hupTo]
          rfl

end UpTo

/-! ## Fences -/

theorem newline?_eq_some {cs r : List Char} : newline? cs = some r ↔ ∃ nl, IsNewline nl ∧ cs = nl ++ r := by
  constructor
  · intro h
    unfold newline? at h
    split at h
    · cases h
      exact ⟨_, Or.inl rfl, rfl⟩
    · cases h
      exact ⟨_, Or.inr rfl, rfl⟩
    · cases h
  · rintro ⟨nl, rfl | rfl, rfl⟩
    · rfl
    · rfl

theorem fence?_eq_some {cs r : List Char} :
    fence? cs = some r ↔ ∃ nl, IsNewline nl ∧ cs = '-' :: '-' :: '-' :: (nl ++ r) := by
  constructor
  · intro h
    unfold fence? at h
    split at h
    · obtain ⟨nl, hnl, rfl⟩ := newline?_eq_some.mp h
      exact ⟨nl, hnl, rfl⟩
    · cases h
  · rintro ⟨nl, hnl, rfl⟩
    exact newline?_eq_some.mpr ⟨nl, hnl, rfl⟩

theorem closingFence?_eq_some {cs r : List Char} : closingFence? cs = some r ↔
    ∃ nl nl', IsNewline nl ∧ IsNewline nl' ∧ cs = nl ++ '-' :: '-' :: '-' :: (nl' ++ r) := by
  unfold closingFence?
  rw [Option.bind_eq_some_iff]
  constructor
  · rintro ⟨cs', hnewline, hfence⟩
    obtain ⟨nl, hnl, rfl⟩ := newline?_eq_some.mp hnewline
    obtain ⟨nl', hnl', rfl⟩ := fence?_eq_some.mp hfence
    exact ⟨nl, nl', hnl, hnl', rfl⟩
  · rintro ⟨nl, nl', hnl, hnl', rfl⟩
    exact ⟨_, newline?_eq_some.mpr ⟨nl, hnl, rfl⟩, fence?_eq_some.mpr ⟨nl', hnl', rfl⟩⟩

/-- The text opens with a line `---`, and `x` stands between it and another such line. -/
def Fenced (t x : List Char) : Prop := ∃ cs s, fence? t = some cs ∧ cs = x ++ s ∧ (closingFence? s).isSome

/-- There is frontmatter between two lines `---`, and the first such is not blank. -/
def Delimited (t : List Char) : Prop :=
  (∃ x, Fenced t x) ∧ ∀ x, Fenced t x → ∃ c ∈ x, isSpace c = false

theorem split_of_not_fenced {t : List Char} (h : ¬∃ x, Fenced t x) : splitFrontmatter t = ([], t) := by
  have hnone : behindFrontmatter t = none := by
    unfold behindFrontmatter
    cases hfence : fence? t with
    | none => rfl
    | some cs =>
        rw [Option.bind_some, Option.map_eq_none_iff]
        cases hupTo : upTo closingFence? cs with
        | none => rfl
        | some found =>
            obtain ⟨x, r⟩ := found
            obtain ⟨s, hcs, hs⟩ := upTo_sound hupTo
            exact absurd ⟨x, cs, s, hfence, hcs, by rw [hs]; rfl⟩ h
  unfold splitFrontmatter
  rw [hnone]

/-- What the split takes where there is frontmatter: the shortest there is. -/
theorem split_of_fenced {t x : List Char} (h : Fenced t x) :
    ∃ x₀ nl₁ nl₂ nl₃ body, Fenced t x₀ ∧ IsNewline nl₁ ∧ IsNewline nl₂ ∧ IsNewline nl₃ ∧ x₀ <+: x ∧
      t = '-' :: '-' :: '-' :: (nl₁ ++ x₀ ++ nl₂ ++ '-' :: '-' :: '-' :: nl₃) ++ body ∧
      splitFrontmatter t = ('-' :: '-' :: '-' :: (nl₁ ++ x₀ ++ nl₂ ++ '-' :: '-' :: '-' :: nl₃), body) := by
  obtain ⟨cs, s, hfence, hcs, hs⟩ := h
  obtain ⟨nl₁, hnl₁, ht⟩ := fence?_eq_some.mp hfence
  obtain ⟨x₀, body, hupTo, hlength⟩ := upTo_complete hs x
  rw [← hcs] at hupTo
  obtain ⟨s₀, hcs₀, hs₀⟩ := upTo_sound hupTo
  obtain ⟨nl₂, nl₃, hnl₂, hnl₃, hclosing⟩ := closingFence?_eq_some.mp hs₀
  have htext : t = '-' :: '-' :: '-' :: (nl₁ ++ x₀ ++ nl₂ ++ '-' :: '-' :: '-' :: nl₃) ++ body := by
    rw [ht, hcs₀, hclosing]
    simp
  refine ⟨x₀, nl₁, nl₂, nl₃, body, ⟨cs, s₀, hfence, hcs₀, by rw [hs₀]; rfl⟩, hnl₁, hnl₂, hnl₃, ?_, htext, ?_⟩
  · exact List.prefix_of_prefix_length_le (hcs₀ ▸ List.prefix_append x₀ s₀) (hcs ▸ List.prefix_append x s) hlength
  · have hbehind : behindFrontmatter t = some body := by
      unfold behindFrontmatter
      rw [hfence, Option.bind_some, hupTo]
      rfl
    unfold splitFrontmatter
    rw [hbehind]
    simp only
    congr 1
    conv_lhs => rw [htext]
    rw [List.length_append, Nat.add_sub_cancel]
    exact List.take_left

/-! ## The envelope of a kept prefix -/

theorem closing?_eq (x a b c : Char) (cs : List Char) : closing? (x :: a :: b :: c :: cs) =
    if x = '\n' ∧ a = '-' ∧ b = '-' ∧ c = '-' then (breaks cs).head? else none := by
  unfold closing?
  split
  · rename_i heq
    cases heq
    simp
  · rename_i hne
    rw [if_neg]
    rintro ⟨rfl, rfl, rfl, rfl⟩
    exact hne cs rfl

/-- Whether the block ends at a place before a fence does not depend on what follows the fence. -/
theorem closing?_before (u nl : List Char) (hnl : IsNewline nl) :
    ∃ b : Bool, ∀ r, (closing? (u ++ '\n' :: '-' :: '-' :: '-' :: (nl ++ r))).isSome = b := by
  have hdash : isSpace '-' = false := by decide
  match u with
  | [] =>
      refine ⟨true, fun r => ?_⟩
      rw [List.nil_append, closing?_eq, if_pos ⟨rfl, rfl, rfl, rfl⟩, List.isSome_head?]
      simpa using breaks_newline hnl r
  | [x] =>
      refine ⟨false, fun r => ?_⟩
      show (closing? (x :: '\n' :: '-' :: '-' :: '-' :: (nl ++ r))).isSome = false
      rw [closing?_eq, if_neg (fun h => absurd h.2.1 (by decide))]
      rfl
  | [x, y] =>
      refine ⟨false, fun r => ?_⟩
      show (closing? (x :: y :: '\n' :: '-' :: '-' :: '-' :: (nl ++ r))).isSome = false
      rw [closing?_eq, if_neg (fun h => absurd h.2.2.1 (by decide))]
      rfl
  | [x, y, z] =>
      refine ⟨false, fun r => ?_⟩
      show (closing? (x :: y :: z :: '\n' :: '-' :: '-' :: '-' :: (nl ++ r))).isSome = false
      rw [closing?_eq, if_neg (fun h => absurd h.2.2.2 (by decide))]
      rfl
  | x :: y :: z :: c :: v =>
      -- The white space behind the dashes ends at the fence.
      obtain ⟨l, hl⟩ := breaks_behind hdash (v ++ ['\n'])
      refine ⟨decide (x = '\n' ∧ y = '-' ∧ z = '-' ∧ c = '-') && !l.isEmpty, fun r => ?_⟩
      show (closing? (x :: y :: z :: c :: (v ++ '\n' :: '-' :: '-' :: '-' :: (nl ++ r)))).isSome = _
      rw [closing?_eq]
      have hbreaks := hl ('-' :: '-' :: (nl ++ r))
      rw [List.append_assoc, List.singleton_append] at hbreaks
      by_cases hmatch : x = '\n' ∧ y = '-' ∧ z = '-' ∧ c = '-'
      · rw [if_pos hmatch, hbreaks, decide_eq_true hmatch, Bool.true_and]
        cases l <;> rfl
      · rw [if_neg hmatch, decide_eq_false hmatch]
        rfl

/-- The block before a fence does not depend on what follows the fence. -/
theorem upTo_before {nl : List Char} (hnl : IsNewline nl) (u : List Char) :
    ∃ g, ∀ r, ∃ r', upTo closing? (u ++ '\n' :: '-' :: '-' :: '-' :: (nl ++ r)) = some (g, r') := by
  induction u with
  | nil =>
      refine ⟨[], fun r => ?_⟩
      obtain ⟨r', hr'⟩ : ∃ r', closing? ('\n' :: '-' :: '-' :: '-' :: (nl ++ r)) = some r' := by
        rw [closing?_eq, if_pos ⟨rfl, rfl, rfl, rfl⟩, ← Option.isSome_iff_exists, List.isSome_head?]
        simpa using breaks_newline hnl r
      exact ⟨r', upTo_of_some hr'⟩
  | cons x u ih =>
      obtain ⟨g, hg⟩ := ih
      obtain ⟨b, hb⟩ := closing?_before (x :: u) nl hnl
      cases b with
      | true =>
          refine ⟨[], fun r => ?_⟩
          obtain ⟨r', hr'⟩ := Option.isSome_iff_exists.mp (hb r)
          exact ⟨r', upTo_of_some hr'⟩
      | false =>
          refine ⟨x :: g, fun r => ?_⟩
          obtain ⟨r', hr'⟩ := hg r
          refine ⟨r', ?_⟩
          have hnone : closing? (x :: (u ++ '\n' :: '-' :: '-' :: '-' :: (nl ++ r))) = none := by
            simpa using hb r
          rw [List.cons_append, upTo_cons_of_none hnone, hr']
          rfl

theorem closingNewline {nl : List Char} (h : IsNewline nl) : ∃ w, nl = w ++ ['\n'] ∧ ∀ c ∈ w, isSpace c = true := by
  rcases h with rfl | rfl
  · exact ⟨[], rfl, fun c hc => by cases hc⟩
  · refine ⟨['\r'], rfl, fun c hc => ?_⟩
    rw [List.mem_singleton] at hc
    subst hc
    decide

/-- The block of a text with frontmatter that is not blank is in the prefix. -/
theorem envelope_of_prefix {nl₁ nl₂ nl₃ x : List Char} (hnl₁ : IsNewline nl₁) (hnl₂ : IsNewline nl₂)
    (hnl₃ : IsNewline nl₃) (hx : ∃ c ∈ x, isSpace c = false) : ∃ g, ∀ b, ∃ r,
      envelope ('-' :: '-' :: '-' :: (nl₁ ++ x ++ nl₂ ++ '-' :: '-' :: '-' :: nl₃) ++ b) = some (g, r) := by
  obtain ⟨c, hc, hspace⟩ := hx
  obtain ⟨x₁, x₂, rfl⟩ := List.append_of_mem hc
  obtain ⟨w, rfl, -⟩ := closingNewline hnl₂
  obtain ⟨l, hl⟩ := breaks_behind hspace (nl₁ ++ x₁)
  have hne : l ≠ [] := by
    intro h
    have hempty := hl []
    rw [h, List.append_assoc] at hempty
    exact breaks_newline hnl₁ _ hempty
  obtain ⟨v, l, rfl⟩ := List.exists_cons_of_ne_nil hne
  obtain ⟨g, hg⟩ := upTo_before hnl₃ (v ++ c :: (x₂ ++ w))
  refine ⟨g, fun b => ?_⟩
  obtain ⟨r, hr⟩ := hg b
  refine ⟨r, ?_⟩
  have hbreaks := hl (x₂ ++ w ++ '\n' :: '-' :: '-' :: '-' :: (nl₃ ++ b))
  have htext : '-' :: '-' :: '-' :: (nl₁ ++ (x₁ ++ c :: x₂) ++ (w ++ ['\n']) ++ '-' :: '-' :: '-' :: nl₃) ++ b =
      '-' :: '-' :: '-' :: (nl₁ ++ x₁ ++ c :: (x₂ ++ w ++ '\n' :: '-' :: '-' :: '-' :: (nl₃ ++ b))) := by simp
  have hhead : v ++ c :: (x₂ ++ w ++ '\n' :: '-' :: '-' :: '-' :: (nl₃ ++ b)) =
      v ++ c :: (x₂ ++ w) ++ '\n' :: '-' :: '-' :: '-' :: (nl₃ ++ b) := by simp
  rw [htext]
  show (breaks _).findSome? (upTo closing?) = _
  rw [hbreaks, List.map_cons, List.findSome?_cons, hhead, hr]

/-! ## Blank frontmatter -/

/-- Behind blank frontmatter the block is looked for in what follows it. -/
theorem envelope_of_blank {nl₁ nl₂ nl₃ x g r b : List Char} (hnl₁ : IsNewline nl₁) (hnl₂ : IsNewline nl₂)
    (hx : ∀ c ∈ x, isSpace c = true) (hb : upTo closing? ('-' :: '-' :: '-' :: (nl₃ ++ b)) = some (g, r)) :
    envelope ('-' :: '-' :: '-' :: (nl₁ ++ x ++ nl₂ ++ '-' :: '-' :: '-' :: nl₃) ++ b) = some (g, r) := by
  obtain ⟨w, rfl, hw⟩ := closingNewline hnl₂
  obtain ⟨w₁, rfl, hw₁⟩ := closingNewline hnl₁
  have hspaces : ∀ c ∈ w₁ ++ ['\n'] ++ x ++ w, isSpace c = true := by
    intro c hc
    simp only [List.mem_append, List.mem_singleton] at hc
    rcases hc with ((hc | rfl) | hc) | hc
    · exact hw₁ c hc
    · decide
    · exact hx c hc
    · exact hw c hc
  obtain ⟨l, hl⟩ := breaks_blank (c := '-') (by decide) hspaces ('-' :: '-' :: (nl₃ ++ b))
  have htext : '-' :: '-' :: '-' :: (w₁ ++ ['\n'] ++ x ++ (w ++ ['\n']) ++ '-' :: '-' :: '-' :: nl₃) ++ b =
      '-' :: '-' :: '-' :: (w₁ ++ ['\n'] ++ x ++ w ++ '\n' :: '-' :: '-' :: '-' :: (nl₃ ++ b)) := by simp
  rw [htext]
  show (breaks _).findSome? (upTo closing?) = _
  rw [hl, List.findSome?_cons, hb]

/-- Two bodies that bring different frontmatter where the prefix has none. -/
def bodyA : List Char := "a:v\n---\n".toList
def bodyB : List Char := "b:v\n---\n".toList

theorem bodies_differ {nl : List Char} (hnl : IsNewline nl) : ∃ g g' r r',
    upTo closing? ('-' :: '-' :: '-' :: (nl ++ bodyA)) = some (g, r) ∧
      upTo closing? ('-' :: '-' :: '-' :: (nl ++ bodyB)) = some (g', r') ∧ readFields g ≠ readFields g' := by
  rcases hnl with rfl | rfl
  · exact ⟨"---\na:v".toList, "---\nb:v".toList, [], [], by decide, by decide, by decide⟩
  · exact ⟨"---\r\na:v".toList, "---\r\nb:v".toList, [], [], by decide, by decide, by decide⟩

/-! ## The kept prefix -/

theorem parse_of_envelope {t g r : List Char} (h : envelope t = some (g, r)) :
    ∃ fm, parseFrontmatter t = some fm ∧ fm.frontmatter = readFields g :=
  ⟨_, by rw [parseFrontmatter, h]; rfl, rfl⟩

/-- The text that replaces a person file has its frontmatter, whatever the new body, exactly if the
frontmatter is delimited as the consolidator reads it. -/
theorem kept_iff_delimited (t : List Char) (fm : Frontmatter) (h : parseFrontmatter t = some fm) :
    (∀ b, ∃ fm', parseFrontmatter ((splitFrontmatter t).1 ++ b) = some fm' ∧ fm'.frontmatter = fm.frontmatter) ↔
      Delimited t := by
  constructor
  · intro hkept
    have hfenced : ∃ x, Fenced t x := by
      by_contra hnot
      obtain ⟨fm', hfm', -⟩ := hkept []
      rw [split_of_not_fenced hnot] at hfm'
      cases hfm'
    refine ⟨hfenced, fun x hx => ?_⟩
    obtain ⟨x₀, nl₁, nl₂, nl₃, body, -, hnl₁, hnl₂, hnl₃, hinit, -, hsplit⟩ := split_of_fenced hx
    by_contra hblank
    push Not at hblank
    have hspaces : ∀ c ∈ x₀, isSpace c = true := fun c hc => by simpa using hblank c (hinit.subset hc)
    obtain ⟨g, g', r, r', hg, hg', hne⟩ := bodies_differ hnl₃
    obtain ⟨fm₁, hfm₁, hsame₁⟩ := hkept bodyA
    obtain ⟨fm₂, hfm₂, hsame₂⟩ := hkept bodyB
    rw [hsplit] at hfm₁ hfm₂
    obtain ⟨fm₁', hfm₁', hread₁⟩ := parse_of_envelope (envelope_of_blank hnl₁ hnl₂ hspaces hg)
    obtain ⟨fm₂', hfm₂', hread₂⟩ := parse_of_envelope (envelope_of_blank hnl₁ hnl₂ hspaces hg')
    rw [hfm₁', Option.some.injEq] at hfm₁
    rw [hfm₂', Option.some.injEq] at hfm₂
    subst hfm₁ hfm₂
    exact hne (hread₁.symm.trans ((hsame₁.trans hsame₂.symm).trans hread₂))
  · rintro ⟨⟨x, hx⟩, hsolid⟩ b
    obtain ⟨x₀, nl₁, nl₂, nl₃, body, hx₀, hnl₁, hnl₂, hnl₃, -, htext, hsplit⟩ := split_of_fenced hx
    obtain ⟨g, hg⟩ := envelope_of_prefix hnl₁ hnl₂ hnl₃ (hsolid x₀ hx₀)
    obtain ⟨r, hr⟩ := hg body
    obtain ⟨r', hr'⟩ := hg b
    obtain ⟨fm₀, hfm₀, hread₀⟩ := parse_of_envelope hr
    obtain ⟨fm', hfm', hread'⟩ := parse_of_envelope hr'
    rw [← htext, h, Option.some.injEq] at hfm₀
    subst hfm₀
    exact ⟨fm', by rw [hsplit]; exact hfm', hread'.trans hread₀.symm⟩

/-- Where the split finds a block that is not blank, the text is delimited. -/
theorem delimited_of_split {t cs x r : List Char} (hfence : fence? t = some cs)
    (hupTo : upTo closingFence? cs = some (x, r)) (hx : ∃ c ∈ x, isSpace c = false) : Delimited t := by
  obtain ⟨s, hcs, hs⟩ := upTo_sound hupTo
  refine ⟨⟨x, cs, s, hfence, hcs, by rw [hs]; rfl⟩, ?_⟩
  rintro x' ⟨cs', s', hfence', hcs', hs'⟩
  rw [hfence, Option.some.injEq] at hfence'
  subst hfence'
  obtain ⟨x₀, r₀, hupTo₀, hlength⟩ := upTo_complete hs' x'
  rw [← hcs', hupTo, Option.some.injEq, Prod.mk.injEq] at hupTo₀
  obtain ⟨rfl, -⟩ := hupTo₀
  obtain ⟨c, hc, hspace⟩ := hx
  refine ⟨c, ?_, hspace⟩
  exact (List.prefix_of_prefix_length_le (hcs ▸ List.prefix_append x s) (hcs' ▸ List.prefix_append x' s')
    hlength).subset hc

/-- A person file as the harness writes it, and a shorter body. -/
theorem kept_of_person : ∃ fm',
    parseFrontmatter ((splitFrontmatter "---\nname: Ann\n---\nlong body\n".toList).1 ++ "short\n".toList) = some fm' ∧
      fm'.frontmatter =
        ((parseFrontmatter "---\nname: Ann\n---\nlong body\n".toList).get (by decide)).frontmatter :=
  (kept_iff_delimited _ _ (Option.some_get _).symm).mpr
    (delimited_of_split (x := "name: Ann".toList) rfl rfl ⟨'n', by decide, by decide⟩) "short\n".toList

/-- A space behind the opening dashes: the reader takes the frontmatter, the split does not. -/
theorem lost_behind_space :
    ¬∀ t fm, parseFrontmatter t = some fm → ∀ b, ∃ fm',
      parseFrontmatter ((splitFrontmatter t).1 ++ b) = some fm' ∧ fm'.frontmatter = fm.frontmatter := by
  intro h
  obtain ⟨fm', hfm', -⟩ := h "--- \nname: Ann\n---\nlong body\n".toList _
    (Option.some_get (by decide)).symm "short\n".toList
  have hnone : parseFrontmatter ((splitFrontmatter "--- \nname: Ann\n---\nlong body\n".toList).1 ++
      "short\n".toList) = none := by decide
  rw [hnone] at hfm'
  cases hfm'

end Elpis.Memory
