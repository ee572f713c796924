import Elpis.Memory.Consolidator

/-!
# The parts a memory is shown in

`chunksAt` on the code units of a text, which is what it cuts. Its lines are what `/.*(?:\n|$)/g`
matches, and `.` stops at every line end: a line that another end than `\n` closes is matched
nowhere, and is in no part.
-/

namespace Elpis.Memory.Units

open Elpis.Js

/-! ## The parts -/

/-- The line ends other than `\n`: `\r`, U+2028 and U+2029. -/
def strayEnd (u : ℕ) : Bool := u == 0x0D || u == 0x2028 || u == 0x2029

/-- `text.match(/.*(?:\n|$)/g)` without the empty ones, behind what a match has so far. -/
def matchLines (line : List ℕ) : List ℕ → List (List ℕ)
  | [] => if line = [] then [] else [line]
  | u :: us =>
      if u = 0x0A then (line ++ [u]) :: matchLines [] us
      else if strayEnd u then matchLines [] us
      else matchLines (line ++ [u]) us

/-- The part so far, unless it is empty. -/
def flush (current : List ℕ) : List (List ℕ) := if current = [] then [] else [current]

/-- The lines put together as far as they fit, and long ones cut by offset. -/
def packLines (maxChars : ℕ) (current : List ℕ) : List (List ℕ) → List (List ℕ)
  | [] => flush current
  | line :: rest =>
      if maxChars < line.length then flush current ++ line.toChunks maxChars ++ packLines maxChars [] rest
      else if current ≠ [] ∧ maxChars < current.length + line.length then
        current :: packLines maxChars line rest
      else packLines maxChars (current ++ line) rest

def chunksAt (text : List ℕ) (maxChars : ℕ) : List (List ℕ) :=
  if text.length ≤ maxChars then [text]
  else
    match packLines maxChars [] (matchLines [] text) with
    | [] => [text]
    | chunks => chunks

/-! ## Nothing is lost between the lines and the parts -/

section Cuts
variable {α : Type} {n : ℕ}

theorem toChunks_go_flatten (xs : List α) (acc₁ : Array α) (acc₂ : Array (List α)) :
    (List.toChunks.go n xs acc₁ acc₂).flatten = acc₂.toList.flatten ++ (acc₁.toList ++ xs) := by
  induction xs generalizing acc₁ acc₂ with
  | nil => simp [List.toChunks.go]
  | cons x xs ih =>
      rw [List.toChunks.go]
      split
      · rw [ih]
        simp
      · rw [ih]
        simp

theorem toChunks_go_length (hn : 0 < n) (xs : List α) (acc₁ : Array α) (acc₂ : Array (List α))
    (h₁ : acc₁.size ≤ n) (h₂ : ∀ c ∈ acc₂.toList, c.length ≤ n) :
    ∀ c ∈ List.toChunks.go n xs acc₁ acc₂, c.length ≤ n := by
  induction xs generalizing acc₁ acc₂ with
  | nil =>
      intro c hc
      rw [List.toChunks.go, Array.toList_push, List.mem_append, List.mem_singleton] at hc
      rcases hc with hc | rfl
      · exact h₂ c hc
      · exact h₁
  | cons x xs ih =>
      rw [List.toChunks.go]
      split
      · refine ih _ _ (Nat.succ_le_of_lt hn) ?_
        intro c hc
        rw [Array.toList_push, List.mem_append, List.mem_singleton] at hc
        rcases hc with hc | rfl
        · exact h₂ c hc
        · exact h₁
      · rename_i hsize
        rw [beq_iff_eq] at hsize
        refine ih _ _ ?_ h₂
        rw [Array.size_push]
        omega

theorem flatten_toChunks (hn : 0 < n) (xs : List α) : (xs.toChunks n).flatten = xs := by
  obtain ⟨m, rfl⟩ := Nat.exists_eq_succ_of_ne_zero hn.ne'
  cases xs with
  | nil => rfl
  | cons x xs =>
      rw [List.toChunks, toChunks_go_flatten]
      · simp
      · exact Nat.succ_ne_zero m

theorem length_of_mem_toChunks (hn : 0 < n) (xs : List α) : ∀ c ∈ xs.toChunks n, c.length ≤ n := by
  obtain ⟨m, rfl⟩ := Nat.exists_eq_succ_of_ne_zero hn.ne'
  cases xs with
  | nil => intro c hc; cases hc
  | cons x xs =>
      rw [List.toChunks]
      · exact toChunks_go_length hn xs _ _ (by simp) (by simp)
      · exact Nat.succ_ne_zero m

end Cuts

theorem flush_flatten (current : List ℕ) : (flush current).flatten = current := by
  unfold flush
  split
  · rename_i h
    rw [h]
    rfl
  · simp

theorem packLines_flatten {maxChars : ℕ} (hmax : 0 < maxChars) (current : List ℕ) (lines : List (List ℕ)) :
    (packLines maxChars current lines).flatten = current ++ lines.flatten := by
  induction lines generalizing current with
  | nil => rw [packLines, flush_flatten, List.flatten_nil, List.append_nil]
  | cons line rest ih =>
      rw [packLines]
      split
      · rw [List.flatten_append, List.flatten_append, flush_flatten, flatten_toChunks hmax, ih, List.flatten_cons,
          List.nil_append, List.append_assoc]
      · split
        · rw [List.flatten_cons, ih, List.flatten_cons]
        · rw [ih, List.flatten_cons, List.append_assoc]

theorem packLines_length {maxChars : ℕ} (hmax : 0 < maxChars) (current : List ℕ) (lines : List (List ℕ))
    (hcurrent : current.length ≤ maxChars) : ∀ c ∈ packLines maxChars current lines, c.length ≤ maxChars := by
  have hflush : ∀ {part : List ℕ}, part.length ≤ maxChars → ∀ c ∈ flush part, c.length ≤ maxChars := by
    intro part hpart c hc
    unfold flush at hc
    split at hc
    · cases hc
    · exact List.mem_singleton.mp hc ▸ hpart
  induction lines generalizing current with
  | nil => exact hflush hcurrent
  | cons line rest ih =>
      rw [packLines]
      split
      · intro c hc
        rcases List.mem_append.mp hc with hc | hc
        · rcases List.mem_append.mp hc with hc | hc
          · exact hflush hcurrent c hc
          · exact length_of_mem_toChunks hmax line c hc
        · exact ih [] (Nat.zero_le _) c hc
      · rename_i hline
        split
        · intro c hc
          rcases List.mem_cons.mp hc with rfl | hc
          · exact hcurrent
          · exact ih line (not_lt.mp hline) c hc
        · rename_i hfits
          refine ih _ ?_
          rw [List.length_append]
          by_cases hempty : current = []
          · rw [hempty, List.length_nil, Nat.zero_add]
            exact not_lt.mp hline
          · exact not_lt.mp (fun h => hfits ⟨hempty, h⟩)

/-! ## What the lines leave out -/

theorem matchLines_length (line text : List ℕ) :
    (matchLines line text).flatten.length + text.countP strayEnd ≤ line.length + text.length := by
  induction text generalizing line with
  | nil =>
      rw [matchLines]
      split
      · simp
      · simp
  | cons u us ih =>
      rw [matchLines]
      split
      · rename_i hu
        have := ih []
        rw [List.countP_cons_of_neg (by rw [hu]; decide), List.flatten_cons, List.length_append, List.length_append]
        simp only [List.length_cons, List.length_nil] at this ⊢
        omega
      · split
        · rename_i hstray
          have := ih []
          rw [List.countP_cons_of_pos hstray]
          simp only [List.length_cons, List.length_nil] at this ⊢
          omega
        · rename_i hplain
          have := ih (line ++ [u])
          rw [List.countP_cons_of_neg hplain]
          simp only [List.length_append, List.length_cons, List.length_nil] at this ⊢
          omega

/-- Without stray ends the lines are the text. -/
theorem matchLines_flatten {line text : List ℕ} (h : ∀ u ∈ text, strayEnd u = false) :
    (matchLines line text).flatten = line ++ text := by
  induction text generalizing line with
  | nil =>
      rw [matchLines]
      split
      · rename_i hline
        rw [hline]
        rfl
      · simp
  | cons u us ih =>
      have hrest := fun v hv => h v (List.mem_cons_of_mem u hv)
      rw [matchLines]
      split
      · rw [List.flatten_cons, ih hrest]
        simp
      · rw [if_neg (by rw [h u List.mem_cons_self]; exact Bool.false_ne_true), ih hrest]
        simp

/-! ## The parts of a text -/

/-- The parts are the text, cut, and none is too long. -/
structure Whole (text : List ℕ) (maxChars : ℕ) : Prop where
  whole : (chunksAt text maxChars).flatten = text
  short : ∀ c ∈ chunksAt text maxChars, c.length ≤ maxChars

/-- A text is cut without loss exactly if it need not be cut, or has no line end but `\n`. -/
theorem whole_iff {text : List ℕ} {maxChars : ℕ} (hmax : 0 < maxChars) :
    Whole text maxChars ↔ text.length ≤ maxChars ∨ ∀ u ∈ text, strayEnd u = false := by
  by_cases hshort : text.length ≤ maxChars
  · refine iff_of_true ⟨?_, ?_⟩ (Or.inl hshort)
    · rw [chunksAt, if_pos hshort]
      simp
    · rw [chunksAt, if_pos hshort]
      intro c hc
      exact List.mem_singleton.mp hc ▸ hshort
  · have hflatten := packLines_flatten hmax [] (matchLines [] text)
    have hlength := packLines_length hmax [] (matchLines [] text) (Nat.zero_le _)
    have hcount := matchLines_length [] text
    have hchunks : packLines maxChars [] (matchLines [] text) ≠ [] →
        chunksAt text maxChars = packLines maxChars [] (matchLines [] text) := by
      intro hne
      rw [chunksAt, if_neg hshort]
      split
      · rename_i hnil
        exact absurd hnil hne
      · rfl
    rw [List.nil_append] at hflatten
    constructor
    · intro h
      refine Or.inr (fun u hu => ?_)
      by_contra hstray
      rw [Bool.not_eq_false] at hstray
      have hpos : 0 < text.countP strayEnd := List.countP_pos_iff.mpr ⟨u, hu, hstray⟩
      by_cases hnil : packLines maxChars [] (matchLines [] text) = []
      · -- nothing was matched, and the text is one part that is too long
        refine hshort (h.short text ?_)
        rw [chunksAt, if_neg hshort, hnil]
        exact List.mem_singleton_self text
      · have hwhole := congrArg List.length (hchunks hnil ▸ h.whole)
        rw [hflatten] at hwhole
        simp only [List.length_nil] at hcount
        omega
    · rintro (h | h)
      · exact absurd h hshort
      · rw [matchLines_flatten h, List.nil_append] at hflatten
        have hne : packLines maxChars [] (matchLines [] text) ≠ [] := by
          intro hnil
          rw [hnil] at hflatten
          exact hshort (hflatten ▸ Nat.zero_le _)
        refine ⟨?_, ?_⟩
        · rw [hchunks hne, hflatten]
        · rw [hchunks hne]
          exact hlength

/-! ## The parts of a memory -/

/-- The text of a part; a half of a pair becomes the replacement character. -/
def textOf (units : List ℕ) : String := String.ofList (ofUnits units)

theorem ofUnits_plain {u : ℕ} (h : ¬(0xD800 ≤ u ∧ u < 0xE000)) (rest : List ℕ) :
    ofUnits (u :: rest) = Char.ofNat u :: ofUnits rest := by
  cases rest with
  | nil => simp only [ofUnits, if_neg h]
  | cons v rest => rw [ofUnits, if_neg (by omega), if_neg h]

theorem ofUnits_pair {u v : ℕ} (hu : 0xD800 ≤ u ∧ u < 0xDC00) (hv : 0xDC00 ≤ v ∧ v < 0xE000) (rest : List ℕ) :
    ofUnits (u :: v :: rest) = Char.ofNat (0x10000 + (u - 0xD800) * 0x400 + (v - 0xDC00)) :: ofUnits rest := by
  rw [ofUnits, if_pos ⟨hu.1, hu.2, hv.1, hv.2⟩]

/-- The units of a character are a plain one, or a pair. -/
theorem charUnits_cases (c : Char) :
    (charUnits c = [c.toNat] ∧ ¬(0xD800 ≤ c.toNat ∧ c.toNat < 0xE000)) ∨
      ∃ u v, charUnits c = [u, v] ∧ (0xD800 ≤ u ∧ u < 0xDC00) ∧ (0xDC00 ≤ v ∧ v < 0xE000) ∧
        0x10000 + (u - 0xD800) * 0x400 + (v - 0xDC00) = c.toNat ∧ 0x10000 ≤ c.toNat := by
  have hmax := toNat_lt_max c
  unfold charUnits
  by_cases hsmall : c.toNat < 0x10000
  · exact Or.inl ⟨if_pos hsmall, not_surrogate c⟩
  · refine Or.inr ⟨_, _, if_neg hsmall, ?_, ?_, ?_, by omega⟩
    · omega
    · omega
    · omega

theorem ofUnits_flatMap (cs : List Char) : ofUnits (cs.flatMap charUnits) = cs := by
  induction cs with
  | nil => rfl
  | cons c cs ih =>
      rw [List.flatMap_cons]
      rcases charUnits_cases c with ⟨hunits, hplain⟩ | ⟨u, v, hunits, hu, hv, hsum, _⟩
      · rw [hunits, List.singleton_append, ofUnits_plain hplain, ih, Char.ofNat_toNat]
      · rw [hunits, List.cons_append, List.singleton_append, ofUnits_pair hu hv, hsum, ih, Char.ofNat_toNat]

theorem textOf_codeUnits (s : String) : textOf (codeUnits s) = s := by
  rw [textOf, codeUnits_eq, ofUnits_flatMap, String.ofList_toList]

theorem length_codeUnits (s : String) : (codeUnits s).length = length s := by
  unfold codeUnits length
  rw [List.length_flatMap]
  congr 1
  refine List.map_congr_left (fun c _ => ?_)
  split
  · rfl
  · rfl

theorem flatMap_charUnits_eq_nil {cs : List Char} : cs.flatMap charUnits = [] ↔ cs = [] := by
  cases cs with
  | nil => simp
  | cons c cs => simp [charUnits_ne_nil]

/-- The lines of a text are those of its units. -/
theorem matchLines_units (line cs : List Char) :
    (Memory.matchLines line cs).map (List.flatMap charUnits) =
      matchLines (line.flatMap charUnits) (cs.flatMap charUnits) := by
  induction cs generalizing line with
  | nil =>
      rw [Memory.matchLines, List.flatMap_nil, matchLines]
      by_cases hline : line = []
      · rw [if_pos hline, hline]
        rfl
      · rw [if_neg hline, if_neg (fun h => hline (flatMap_charUnits_eq_nil.mp h))]
        rfl
  | cons c cs ih =>
      rw [Memory.matchLines, List.flatMap_cons]
      rcases charUnits_cases c with ⟨hunits, hplain⟩ | ⟨u, v, hunits, hu, hv, hsum, hlarge⟩
      · rw [hunits, List.singleton_append, matchLines]
        have hnewline : (c = '\n') ↔ c.toNat = 0x0A := by
          rw [← Char.toNat_inj]
          rfl
        have hstray : c ≠ '\n' → (isLineEnd c = strayEnd c.toNat) := by
          intro hne
          unfold isLineEnd strayEnd
          have hof : ∀ d : Char, (c == d) = (c.toNat == d.toNat) := by
            intro d
            rw [Bool.eq_iff_iff, beq_iff_eq, beq_iff_eq, Char.toNat_inj]
          rw [hof '\r', hof '\u2028', hof '\u2029', beq_eq_false_iff_ne.mpr hne]
          rfl
        by_cases hc : c = '\n'
        · rw [if_pos hc, if_pos (hnewline.mp hc), List.map_cons, ih, List.flatMap_append, List.flatMap_singleton, hunits]
          rfl
        · rw [if_neg hc, if_neg (fun h => hc (hnewline.mpr h)), hstray hc]
          split
          · rw [ih]
            rfl
          · rw [ih, List.flatMap_append, List.flatMap_singleton, hunits]
      · have hc : c ≠ '\n' := by
          rintro rfl
          exact absurd hlarge (by decide)
        have hend : isLineEnd c = false := by
          unfold isLineEnd
          simp only [Bool.or_eq_false_iff, beq_eq_false_iff_ne]
          refine ⟨⟨⟨hc, ?_⟩, ?_⟩, ?_⟩
          all_goals
            rintro rfl
            exact absurd hlarge (by decide)
        have hplain : ∀ w, 0xD800 ≤ w → w < 0xE000 → w ≠ 0x0A ∧ strayEnd w = false := by
          intro w hlow hhigh
          refine ⟨by omega, ?_⟩
          unfold strayEnd
          simp only [Bool.or_eq_false_iff, beq_eq_false_iff_ne]
          omega
        obtain ⟨hu10, hustray⟩ := hplain u hu.1 (by omega)
        obtain ⟨hv10, hvstray⟩ := hplain v (by omega) hv.2
        rw [hunits, List.cons_append, List.singleton_append, matchLines, if_neg hu10, hustray,
          if_neg Bool.false_ne_true, matchLines, if_neg hv10, hvstray, if_neg Bool.false_ne_true, if_neg hc, hend,
          if_neg Bool.false_ne_true, ih, List.flatMap_append, List.flatMap_singleton, hunits, List.append_assoc]
        rfl

theorem codeUnits_ofList (cs : List Char) : codeUnits (String.ofList cs) = cs.flatMap charUnits := by
  rw [codeUnits_eq, String.toList_ofList]

theorem codeUnits_eq_nil {s : String} : codeUnits s = [] ↔ s = "" := by
  rw [codeUnits_eq, flatMap_charUnits_eq_nil, String.toList_eq_nil_iff]

/-- The parts of a text are those of its units, as texts. -/
theorem packLines_units (maxChars : ℕ) (current : String) (lines : List (List Char)) :
    Memory.packLines maxChars current lines =
      (packLines maxChars (codeUnits current) (lines.map (List.flatMap charUnits))).map textOf := by
  have hflush : ∀ s : String, (if s = "" then [] else [s]) = (flush (codeUnits s)).map textOf := by
    intro s
    unfold flush
    by_cases hs : s = ""
    · rw [if_pos hs, if_pos (codeUnits_eq_nil.mpr hs)]
      rfl
    · rw [if_neg hs, if_neg (fun h => hs (codeUnits_eq_nil.mp h)), List.map_singleton, textOf_codeUnits]
  induction lines generalizing current with
  | nil => exact hflush current
  | cons line rest ih =>
      rw [Memory.packLines, List.map_cons, packLines]
      simp only [← length_codeUnits, codeUnits_ofList]
      by_cases hlong : maxChars < (line.flatMap charUnits).length
      · rw [if_pos hlong, if_pos hlong, hflush, ih, List.map_append, List.map_append, Memory.pieces, codeUnits_ofList]
        rfl
      · rw [if_neg hlong, if_neg hlong]
        by_cases hfull : current ≠ "" ∧ maxChars < (codeUnits current).length + (line.flatMap charUnits).length
        · rw [if_pos hfull, if_pos ⟨fun h => hfull.1 (codeUnits_eq_nil.mp h), hfull.2⟩, List.map_cons, textOf_codeUnits,
            ih, codeUnits_ofList]
        · rw [if_neg hfull, if_neg (fun h => hfull ⟨fun hc => h.1 (codeUnits_eq_nil.mpr hc), h.2⟩), ih, codeUnits_append,
            codeUnits_ofList]

theorem chunksAt_units (text : String) (maxChars : ℕ) :
    Memory.chunksAt text maxChars = (chunksAt (codeUnits text) maxChars).map textOf := by
  have hpack : Memory.packLines maxChars "" (Memory.matchLines [] text.toList) =
      (packLines maxChars [] (matchLines [] (codeUnits text))).map textOf := by
    rw [packLines_units, matchLines_units]
    rfl
  rw [Memory.chunksAt, chunksAt, length_codeUnits]
  by_cases hshort : length text ≤ maxChars
  · rw [if_pos hshort, if_pos hshort, List.map_singleton, textOf_codeUnits]
  · rw [if_neg hshort, if_neg hshort, hpack]
    cases packLines maxChars [] (matchLines [] (codeUnits text)) with
    | nil =>
        show [text] = [codeUnits text].map textOf
        rw [List.map_singleton, textOf_codeUnits]
    | cons chunk chunks => rfl

/-! ## The first pass -/

theorem mapM_ok {α β ε : Type} {f : α → Except ε β} {xs : List α} {ys : List β} (h : xs.mapM f = .ok ys) :
    ∀ x ∈ xs, ∃ y, f x = .ok y := by
  induction xs generalizing ys with
  | nil => intro x hx; cases hx
  | cons x xs ih =>
      rw [List.mapM_cons] at h
      cases hx : f x with
      | error e =>
          rw [hx] at h
          cases h
      | ok y =>
          rw [hx] at h
          cases hrest : xs.mapM f with
          | error e =>
              rw [hrest] at h
              cases h
          | ok rest =>
              intro z hz
              rcases List.mem_cons.mp hz with rfl | hz
              · exact ⟨y, hx⟩
              · exact ih hrest z hz

/-- A rewrite that returns has had an answer of the model to every part of the body, in the first pass. -/
theorem rewrite_asks {env : Env} {model : Model} {original out : String} (h : rewrite env model original = .ok out) :
    ∀ part ∈ (Memory.chunksAt (bodyOf original) env.maxChars).zipIdx, ∃ answer, model 0 part.2 part.1 = .ok answer := by
  obtain ⟨next, hpass⟩ : ∃ next, pass env model 0 (bodyOf original) = .ok next := by
    rw [rewrite, passes] at h
    cases hpass : pass env model 0 (bodyOf original) with
    | error e =>
        rw [hpass] at h
        cases h
    | ok next => exact ⟨next, rfl⟩
  obtain ⟨summaries, hsummaries⟩ : ∃ summaries, (Memory.chunksAt (bodyOf original) env.maxChars).zipIdx.mapM
      (summary env model 0 (Memory.chunksAt (bodyOf original) env.maxChars).length) = .ok summaries := by
    rw [pass] at hpass
    cases hmap : (Memory.chunksAt (bodyOf original) env.maxChars).zipIdx.mapM
        (summary env model 0 (Memory.chunksAt (bodyOf original) env.maxChars).length) with
    | error e =>
        simp only [hmap] at hpass
        cases hpass
    | ok summaries => exact ⟨summaries, rfl⟩
  intro part hpart
  obtain ⟨cleaned, hcleaned⟩ := mapM_ok hsummaries part hpart
  rw [summary] at hcleaned
  cases hanswer : model 0 part.2 part.1 with
  | error e =>
      rw [hanswer] at hcleaned
      cases hcleaned
  | ok answer => exact ⟨answer, rfl⟩

/-- The parts are the text and none is too long; and before a rewrite of a memory with this body returns,
each has been answered in the first pass. -/
structure Kept (text : List ℕ) (maxChars : ℕ) : Prop extends Whole text maxChars where
  shown : ∀ (env : Env) (model : Model) (original out : String), env.maxChars = maxChars →
    codeUnits (bodyOf original) = text → rewrite env model original = .ok out →
    ∀ i chunk, (chunksAt text maxChars)[i]? = some chunk → ∃ answer, model 0 i (textOf chunk) = .ok answer

/-- Nothing of a text is lost on its way to the model exactly if it is not cut, or has no line end but `\n`. -/
theorem kept_iff (text : List ℕ) (maxChars : ℕ) (hmax : 0 < maxChars) :
    Kept text maxChars ↔ text.length ≤ maxChars ∨ ∀ u ∈ text, strayEnd u = false := by
  rw [← whole_iff hmax]
  refine ⟨fun h => h.toWhole, fun h => ⟨h, ?_⟩⟩
  rintro env model original out rfl rfl hout i chunk hchunk
  refine rewrite_asks hout (textOf chunk, i) ?_
  rw [List.mem_zipIdx_iff_getElem?, chunksAt_units, List.getElem?_map, hchunk]
  rfl

/-- Of a line with a carriage return nothing but the line feed is left. -/
theorem crlf_lost : chunksAt (codeUnits "a\r\n") 2 = [codeUnits "\n"] ∧ ¬Kept (codeUnits "a\r\n") 2 := by
  have hchunks : chunksAt (codeUnits "a\r\n") 2 = [codeUnits "\n"] := by decide
  refine ⟨hchunks, fun h => ?_⟩
  have hwhole := h.whole
  rw [hchunks] at hwhole
  exact absurd hwhole (by decide)

theorem kept_lf : Kept (codeUnits "a\nb\n") 2 :=
  (kept_iff (codeUnits "a\nb\n") 2 (by decide)).mpr (Or.inr (by decide))

end Elpis.Memory.Units
