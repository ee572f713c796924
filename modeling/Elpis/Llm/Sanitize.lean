import Elpis.Js.Text
import Elpis.Lib.Tags

/-!
# Leaked markers in a reply

`sanitizeContent` of `src/llm/llm.ts`, on the code units of the content. Reasoning blocks and what
stands before the last close tag go first, then the markers, one after another. Each of these
removals can close up what stood around it into a tag or a marker that is not looked for again.
-/

namespace Elpis.Llm.Sanitize

open Elpis.Js Elpis.Lib.Tags

/-! ## The delimiters -/

abbrev lt : ℕ := '<'.toNat
abbrev gt : ℕ := '>'.toNat

theorem lt_ne_gt : lt ≠ gt := by decide

/-- `'<' + name + '>'`. -/
def delimiter (name : String) (h : lt ∉ codeUnits name ∧ gt ∉ codeUnits name) : Tag lt gt := ⟨codeUnits name, h.1, h.2⟩

def LEAKED_COT_MARKERS : List (Tag lt gt) :=
  [delimiter "|tool_calls_section_begin|" (by decide), delimiter "|tool_calls_section_end|" (by decide),
    delimiter "|tool_call_begin|" (by decide), delimiter "|tool_call_end|" (by decide),
    delimiter "|tool_call_argument_begin|" (by decide), delimiter "|tool_call_argument_end|" (by decide),
    delimiter "|im_start|" (by decide), delimiter "|im_end|" (by decide)]

def THINK_OPEN : Tag lt gt := delimiter "think" (by decide)
def THINK_CLOSE : Tag lt gt := delimiter "/think" (by decide)

/-- All that `sanitizeContent` looks for. -/
def delimiters : List (Tag lt gt) := THINK_OPEN :: THINK_CLOSE :: LEAKED_COT_MARKERS

/-! ## The removals -/

/-- `\s` on a code unit. -/
def isWhite (u : ℕ) : Bool :=
  (9 ≤ u && u ≤ 13) || u == 32 || u == 0xa0 || u == 0x1680 || (0x2000 ≤ u && u ≤ 0x200a) || u == 0x2028 ||
    u == 0x2029 || u == 0x202f || u == 0x205f || u == 0x3000 || u == 0xfeff

/-- `out.replace(/\s/g, '').length`. -/
def printable (out : List ℕ) : ℕ := (out.filter (fun u => !isWhite u)).length

theorem length_cut {pat text x y : List ℕ} (hpat : pat ≠ []) (h : cut pat text = some (x, y)) :
    y.length < text.length := by
  have hlen := List.length_pos_iff.mpr hpat
  rw [append_of_cut h, List.length_append, List.length_append]
  omega

/-- `built`: the text outside the blocks, without the rest behind an open tag that nothing closes. -/
def outside (rest : List ℕ) : List ℕ :=
  match _ho : cut THINK_OPEN.text rest with
  | none => rest
  | some (before, afterOpen) =>
      match _hc : cut THINK_CLOSE.text afterOpen with
      | none => before
      | some (_, behind) => before ++ outside behind
termination_by rest.length
decreasing_by exact (length_cut THINK_CLOSE.text_ne_nil _hc).trans (length_cut THINK_OPEN.text_ne_nil _ho)

structure Sanitized where
  content : List ℕ
  stripped : Bool
deriving DecidableEq, Repr

def dropBlocks (content : List ℕ) : Sanitized :=
  if (cut THINK_OPEN.text content).isSome then ⟨outside content, true⟩ else ⟨content, false⟩

/-- What follows the last close tag. -/
def dropLeading (s : Sanitized) : Sanitized :=
  match cutLast THINK_CLOSE.text s.content with
  | some (_, reply) => ⟨reply, true⟩
  | none => s

def dropMarker (s : Sanitized) (marker : Tag lt gt) : Sanitized :=
  if (cut marker.text s.content).isSome then ⟨without marker.text s.content, true⟩ else s

def sanitizeContent (content : List ℕ) : Sanitized :=
  if content = [] then ⟨content, false⟩
  else
    let out := LEAKED_COT_MARKERS.foldl dropMarker (dropLeading (dropBlocks content))
    if out.stripped = true ∧ printable out.content < 8 then ⟨[], true⟩ else out

/-! ## What stands outside the reasoning -/

/-- `Outside content built`: no more than the blocks of `content` is missing in `built`, the first
open tag beginning the first block. -/
inductive Outside : List ℕ → List ℕ → Prop
  | plain {text} (hopen : ¬THINK_OPEN.text <:+: text) : Outside text text
  | unclosed {x y} (hopen : ¬THINK_OPEN.text <:+: x) (hclose : ¬THINK_CLOSE.text <:+: y) :
      Outside (x ++ (THINK_OPEN.text ++ y)) x
  | block {x y z built} (hopen : ¬THINK_OPEN.text <:+: x) (hclose : ¬THINK_CLOSE.text <:+: y)
      (rest : Outside z built) : Outside (x ++ (THINK_OPEN.text ++ (y ++ (THINK_CLOSE.text ++ z)))) (x ++ built)

/-- The reply in a content: what is outside the blocks, behind the last close tag of it. -/
inductive Reply (content : List ℕ) : List ℕ → Prop
  | whole {built} (out : Outside content built) (hclose : ¬THINK_CLOSE.text <:+: built) : Reply content built
  | behind {x y} (out : Outside content (x ++ (THINK_CLOSE.text ++ y))) (hclose : ¬THINK_CLOSE.text <:+: y) :
      Reply content y

section Loop
variable {rest before afterOpen inside behind : List ℕ}

theorem outside_plain (ho : cut THINK_OPEN.text rest = none) : outside rest = rest := by
  rw [outside]
  split
  · rfl
  · rename_i h
    rw [ho] at h
    cases h

theorem outside_unclosed (ho : cut THINK_OPEN.text rest = some (before, afterOpen))
    (hc : cut THINK_CLOSE.text afterOpen = none) : outside rest = before := by
  rw [outside]
  split
  · rename_i h
    rw [ho] at h
    cases h
  · rename_i h
    rw [ho] at h
    cases h
    split
    · rfl
    · rename_i h
      rw [hc] at h
      cases h

theorem outside_block (ho : cut THINK_OPEN.text rest = some (before, afterOpen))
    (hc : cut THINK_CLOSE.text afterOpen = some (inside, behind)) : outside rest = before ++ outside behind := by
  rw [outside]
  split
  · rename_i h
    rw [ho] at h
    cases h
  · rename_i h
    rw [ho] at h
    cases h
    split
    · rename_i h
      rw [hc] at h
      cases h
    · rename_i h
      rw [hc] at h
      cases h
      rfl

end Loop

theorem outside_spec (content : List ℕ) : Outside content (outside content) := by
  induction hn : content.length using Nat.strong_induction_on generalizing content with
  | _ n ih =>
      cases ho : cut THINK_OPEN.text content with
      | none =>
          rw [outside_plain ho]
          exact .plain ((cut_eq_none THINK_OPEN.text_ne_nil).mp ho)
      | some parts =>
          obtain ⟨before, afterOpen⟩ := parts
          have hshort := length_cut THINK_OPEN.text_ne_nil ho
          obtain ⟨rfl, hopen⟩ := (cut_eq_some lt_ne_gt).mp ho
          cases hc : cut THINK_CLOSE.text afterOpen with
          | none =>
              rw [outside_unclosed ho hc]
              exact .unclosed hopen ((cut_eq_none THINK_CLOSE.text_ne_nil).mp hc)
          | some parts =>
              obtain ⟨inside, behind⟩ := parts
              have hshorter := length_cut THINK_CLOSE.text_ne_nil hc
              rw [outside_block ho hc]
              obtain ⟨rfl, hclose⟩ := (cut_eq_some lt_ne_gt).mp hc
              exact .block hopen hclose (ih _ (by omega) behind rfl)

theorem Outside.eq {content built : List ℕ} (h : Outside content built) : built = outside content := by
  induction h with
  | plain hopen => exact (outside_plain ((cut_eq_none THINK_OPEN.text_ne_nil).mpr hopen)).symm
  | unclosed hopen hclose =>
      refine (outside_unclosed ((cut_eq_some lt_ne_gt).mpr ⟨rfl, hopen⟩) ?_).symm
      exact (cut_eq_none THINK_CLOSE.text_ne_nil).mpr hclose
  | @block x y z built hopen hclose _ ih =>
      have hc : cut THINK_CLOSE.text (y ++ (THINK_CLOSE.text ++ z)) = some (y, z) :=
        (cut_eq_some lt_ne_gt).mpr ⟨rfl, hclose⟩
      rw [ih]
      exact (outside_block ((cut_eq_some lt_ne_gt).mpr ⟨rfl, hopen⟩) hc).symm

theorem dropBlocks_content (content : List ℕ) : (dropBlocks content).content = outside content := by
  rw [dropBlocks]
  split
  · rfl
  · rename_i h
    rw [Bool.not_eq_true, Option.isSome_eq_false_iff, Option.isNone_iff_eq_none] at h
    exact (outside_plain h).symm

/-- `Reply` says what the loop and the cut behind the last close tag leave. -/
theorem reply_iff {content reply : List ℕ} : Reply content reply ↔ reply = (dropLeading (dropBlocks content)).content := by
  rw [dropLeading, dropBlocks_content]
  constructor
  · rintro (⟨out, hclose⟩ | ⟨out, hclose⟩)
    · rw [← out.eq, (cutLast_eq_none THINK_CLOSE.text_ne_nil).mpr hclose, out.eq]
      exact (dropBlocks_content content).symm
    · rw [← out.eq, (cutLast_eq_some lt_ne_gt).mpr ⟨rfl, hclose⟩]
  · have hout := outside_spec content
    rintro rfl
    split
    · rename_i x y hcut
      obtain ⟨heq, hclose⟩ := (cutLast_eq_some lt_ne_gt).mp hcut
      rw [heq] at hout
      exact .behind hout hclose
    · rename_i hcut
      rw [dropBlocks_content]
      exact .whole hout ((cutLast_eq_none THINK_CLOSE.text_ne_nil).mp hcut)

/-! ## The markers -/

theorem dropMarker_content (s : Sanitized) (marker : Tag lt gt) :
    (dropMarker s marker).content = without marker.text s.content := by
  rw [dropMarker]
  split
  · rfl
  · rename_i h
    rw [Bool.not_eq_true, Option.isSome_eq_false_iff, Option.isNone_iff_eq_none,
      cut_eq_none marker.text_ne_nil] at h
    exact (without_of_absent h).symm

theorem dropMarkers_content (markers : List (Tag lt gt)) (s : Sanitized) :
    (markers.foldl dropMarker s).content = passes markers s.content := by
  induction markers generalizing s with
  | nil => rfl
  | cons marker markers ih =>
      rw [List.foldl_cons, ih, dropMarker_content]
      rfl

/-- The content behind the removals, before a short rest is cleared. -/
def remains (content : List ℕ) : Sanitized := LEAKED_COT_MARKERS.foldl dropMarker (dropLeading (dropBlocks content))

theorem dropMarker_kept {s : Sanitized} {marker : Tag lt gt} (h : (dropMarker s marker).stripped = false) :
    dropMarker s marker = s := by
  rw [dropMarker] at h ⊢
  split
  · rename_i hin
    rw [if_pos hin] at h
    cases h
  · rfl

theorem dropMarkers_kept {markers : List (Tag lt gt)} {s : Sanitized}
    (h : (markers.foldl dropMarker s).stripped = false) : markers.foldl dropMarker s = s := by
  induction markers generalizing s with
  | nil => rfl
  | cons marker markers ih =>
      rw [List.foldl_cons] at h ⊢
      have hrest := ih h
      rw [hrest] at h ⊢
      exact dropMarker_kept h

theorem dropLeading_kept {s : Sanitized} (h : (dropLeading s).stripped = false) : dropLeading s = s := by
  rw [dropLeading] at h ⊢
  split
  · rename_i hcut
    rw [hcut] at h
    cases h
  · rfl

variable {content : List ℕ}

theorem dropBlocks_kept (h : (dropBlocks content).stripped = false) :
    dropBlocks content = ⟨content, false⟩ ∧ ¬THINK_OPEN.text <:+: content := by
  rw [dropBlocks] at h ⊢
  split
  · rename_i hin
    rw [if_pos hin] at h
    cases h
  · rename_i hin
    rw [Bool.not_eq_true, Option.isSome_eq_false_iff, Option.isNone_iff_eq_none,
      cut_eq_none THINK_OPEN.text_ne_nil] at hin
    exact ⟨rfl, hin⟩

/-- Where nothing is reported, nothing was removed, and there was no open tag. -/
theorem remains_kept (h : (remains content).stripped = false) :
    remains content = ⟨content, false⟩ ∧ ¬THINK_OPEN.text <:+: content := by
  have hmarkers := dropMarkers_kept h
  rw [remains, hmarkers] at h ⊢
  have hleading := dropLeading_kept h
  rw [hleading] at h ⊢
  exact dropBlocks_kept h

theorem remains_content (content : List ℕ) :
    (remains content).content = passes LEAKED_COT_MARKERS (dropLeading (dropBlocks content)).content :=
  dropMarkers_content _ _

theorem dropMarkers_plain {markers : List (Tag lt gt)} {text : List ℕ}
    (h : ∀ marker ∈ markers, ¬marker.text <:+: text) : markers.foldl dropMarker ⟨text, false⟩ = ⟨text, false⟩ := by
  induction markers with
  | nil => rfl
  | cons marker markers ih =>
      rw [List.foldl_cons, dropMarker, if_neg, ih (fun m hm => h m (List.mem_cons_of_mem _ hm))]
      have hnone := (cut_eq_none marker.text_ne_nil).mpr (h marker List.mem_cons_self)
      simp [hnone]

/-- A text without delimiters is handed back as it is. -/
theorem sanitizeContent_plain {text : List ℕ} (h : ∀ d ∈ delimiters, ¬d.text <:+: text) :
    sanitizeContent text = ⟨text, false⟩ := by
  have hopen := (cut_eq_none THINK_OPEN.text_ne_nil).mpr (h THINK_OPEN (by simp [delimiters]))
  have hclose := (cutLast_eq_none THINK_CLOSE.text_ne_nil).mpr (h THINK_CLOSE (by simp [delimiters]))
  have hblocks : dropBlocks text = ⟨text, false⟩ := by simp [dropBlocks, hopen]
  have hleading : dropLeading ⟨text, false⟩ = ⟨text, false⟩ := by simp [dropLeading, hclose]
  have hmarkers : LEAKED_COT_MARKERS.foldl dropMarker ⟨text, false⟩ = ⟨text, false⟩ :=
    dropMarkers_plain (fun m hm => h m (by simp [delimiters, hm]))
  simp [sanitizeContent, hblocks, hleading, hmarkers]

/-! ## Which contents come out clean -/

/-- No delimiter is left, a second pass changes nothing, and what is not reported is not changed. -/
structure Clean (content : List ℕ) : Prop where
  no_delimiter : ∀ d ∈ delimiters, ¬d.text <:+: (sanitizeContent content).content
  again : sanitizeContent (sanitizeContent content).content = ⟨(sanitizeContent content).content, false⟩
  reported : (sanitizeContent content).stripped = false → (sanitizeContent content).content = content

/-- What comes down to white space. -/
def Blank (text : List ℕ) : Prop := ∃ u, Sheds LEAKED_COT_MARKERS text u ∧ ∀ c ∈ u, isWhite c = true

/-- Nothing in the reply becomes a delimiter only when that is no longer looked for, but for a
single open tag that nothing else stands beside. -/
def Closes (reply : List ℕ) : Prop :=
  ∀ d ∈ delimiters, ∀ x b y, reply = x ++ lt :: (b ++ gt :: y) → Late LEAKED_COT_MARKERS d b →
    d = THINK_OPEN ∧ Blank x ∧ Blank y

theorem printable_append (x y : List ℕ) : printable (x ++ y) = printable x + printable y := by
  rw [printable, List.filter_append, List.length_append, printable, printable]

theorem printable_eq_zero {x : List ℕ} : printable x = 0 ↔ ∀ c ∈ x, isWhite c = true := by
  simp [printable, List.filter_eq_nil_iff]

/-- The open tag is the only delimiter short enough to be cleared. -/
theorem printable_delimiter : ∀ d ∈ delimiters, d = THINK_OPEN ∨ 8 ≤ printable d.text := by
  decide

theorem blank_iff {x : List ℕ} : Blank x ↔ printable (passes LEAKED_COT_MARKERS x) = 0 := by
  rw [printable_eq_zero]
  constructor
  · rintro ⟨u, hu, hwhite⟩
    have hlt : lt ∉ u := fun h => absurd (hwhite lt h) (by decide)
    have hgt : gt ∉ u := fun h => absurd (hwhite gt h) (by decide)
    rw [hu.passes_eq lt_ne_gt hlt hgt]
    exact hwhite
  · intro hwhite
    exact ⟨_, sheds_passes LEAKED_COT_MARKERS x, hwhite⟩

theorem sanitizeContent_eq (content : List ℕ) :
    sanitizeContent content =
      if content = [] then ⟨content, false⟩
      else if (remains content).stripped = true ∧ printable (remains content).content < 8 then ⟨[], true⟩
      else remains content := rfl

theorem not_late_nil {x b y : List ℕ} (h : Reply [] (x ++ lt :: (b ++ gt :: y))) : False := by
  have hnone : dropBlocks [] = ⟨[], false⟩ := by simp [dropBlocks, cut, Tag.text_ne_nil]
  have hempty := reply_iff.mp h
  simp [hnone, dropLeading, cutLast, Tag.text_ne_nil] at hempty

/-- The content that is left around a late delimiter. -/
theorem printable_late {d : Tag lt gt} {x b y : List ℕ}
    (hreply : Reply content (x ++ lt :: (b ++ gt :: y))) (hlate : Late LEAKED_COT_MARKERS d b) :
    d.text <:+: (remains content).content ∧ printable (remains content).content =
      printable (passes LEAKED_COT_MARKERS x) + (printable d.text + printable (passes LEAKED_COT_MARKERS y)) := by
  have hpasses := hlate.passes_eq lt_ne_gt x y
  rw [reply_iff.mp hreply, ← remains_content] at hpasses
  constructor
  · refine ⟨passes LEAKED_COT_MARKERS x, passes LEAKED_COT_MARKERS y, ?_⟩
    rw [hpasses, List.append_assoc]
  · rw [hpasses, printable_append, printable_append]

theorem closes_of_clean {content reply : List ℕ} (hclean : Clean content) (hreply : Reply content reply) :
    Closes reply := by
  rintro d hd x b y rfl hlate
  obtain ⟨hin, hcount⟩ := printable_late hreply hlate
  have hno := hclean.no_delimiter d hd
  rw [sanitizeContent_eq] at hno
  split at hno
  · rename_i hempty
    subst hempty
    exact (not_late_nil hreply).elim
  · split at hno
    · rename_i hshort
      obtain ⟨-, hshort⟩ := hshort
      have hopen : d = THINK_OPEN := (printable_delimiter d hd).resolve_right (by omega)
      have hseven : printable THINK_OPEN.text = 7 := by decide
      rw [hopen, hseven] at hcount
      exact ⟨hopen, blank_iff.mpr (by omega), blank_iff.mpr (by omega)⟩
    · exact absurd hin hno

theorem no_delimiter_of_closes (h : ∀ reply, Reply content reply → Closes reply) :
    ∀ d ∈ delimiters, ¬d.text <:+: (sanitizeContent content).content := by
  intro d hd hin
  rw [sanitizeContent_eq] at hin
  split at hin
  · rename_i hempty
    subst hempty
    exact d.text_ne_nil (List.infix_nil.mp hin)
  · split at hin
    · exact d.text_ne_nil (List.infix_nil.mp hin)
    · rename_i hlong
      obtain ⟨x', y', hxy⟩ := id hin
      rw [remains_content, List.append_assoc] at hxy
      obtain ⟨x, b, y, heq, hlate, -, -⟩ := late_of_passes lt_ne_gt hxy.symm
      have hreply := reply_iff.mpr heq.symm
      obtain ⟨rfl, hx, hy⟩ := h _ hreply d hd x b y rfl hlate
      have hcount := (printable_late hreply hlate).2
      have hseven : printable THINK_OPEN.text = 7 := by decide
      rw [blank_iff.mp hx, blank_iff.mp hy, hseven] at hcount
      -- so short a rest is only handed back when nothing was removed, and then it has no open tag
      have hkept : (remains content).stripped = false := by
        rw [Bool.eq_false_iff]
        intro hstripped
        exact hlong ⟨hstripped, by omega⟩
      obtain ⟨hsame, hopen⟩ := remains_kept hkept
      rw [hsame] at hin
      exact hopen hin

theorem reported (content : List ℕ) (h : (sanitizeContent content).stripped = false) :
    (sanitizeContent content).content = content := by
  rw [sanitizeContent_eq] at h ⊢
  split
  · rfl
  · rename_i hne
    rw [if_neg hne] at h
    split
    · rename_i hshort
      rw [if_pos hshort] at h
      cases h
    · rename_i hlong
      rw [if_neg hlong] at h
      rw [(remains_kept h).1]

theorem clean_iff (content : List ℕ) : Clean content ↔ ∀ reply, Reply content reply → Closes reply := by
  constructor
  · intro hclean reply hreply
    exact closes_of_clean hclean hreply
  · intro h
    have hno := no_delimiter_of_closes h
    exact ⟨hno, sanitizeContent_plain hno, reported content⟩

/-- Taking `<|im_end|>` out closes up a `<|im_start|>`, whose own turn was before. -/
theorem spliced_marker_left :
    sanitizeContent (codeUnits "<|im_<|im_end|>start|>all is well") = ⟨codeUnits "<|im_start|>all is well", true⟩ ∧
      ¬Clean (codeUnits "<|im_<|im_end|>start|>all is well") := by
  have hout : sanitizeContent (codeUnits "<|im_<|im_end|>start|>all is well") =
      ⟨codeUnits "<|im_start|>all is well", true⟩ := by
    decide
  refine ⟨hout, ?_⟩
  intro hclean
  refine hclean.no_delimiter (delimiter "|im_start|" (by decide)) (by decide) ?_
  rw [hout]
  decide

end Elpis.Llm.Sanitize
