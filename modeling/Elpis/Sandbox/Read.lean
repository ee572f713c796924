import Mathlib.Tactic

/-!
# Reading a file page by page

`src/sandbox/read.ts`. A render that is too long is cut behind a line, and a marker names the line
to continue with. At least one line is shown, even where it does not fit.
-/

namespace Elpis.Sandbox.Read

/-! ## Rendering -/

/-- `Buffer.byteLength(s, 'utf8')`. -/
def renderedByteLength (s : String) : ℕ := (s.toList.map Char.utf8Size).sum

/-- `String(n).padStart(4)`. -/
def padded (n : ℕ) : String := String.ofList (List.replicate (4 - (toString n).length) ' ') ++ toString n

def readContinuationMarker (p : String) (first shownTo totalLines : ℕ) : String :=
  "\n[showing lines " ++ toString first ++ "–" ++ toString shownTo ++ " of " ++ toString totalLines ++
    " — continue: read('" ++ p ++ "', \x7bfrom: " ++ toString (shownTo + 1) ++ "\x7d)]"

/-- The options `from`, `to` and `numbers`. -/
structure ReadOpts where
  first : Option ℤ
  last : Option ℤ
  numbers : Bool
deriving DecidableEq

/-- `fileContent.split('\n')`. -/
def linesOf (fileContent : String) : List String := (fileContent.toList.splitOn '\n').map String.ofList

def renderLine (lines : List String) (numbers : Bool) (lineNo : ℕ) : String :=
  if numbers then padded lineNo ++ ": " ++ lines.getD (lineNo - 1) "" else lines.getD (lineNo - 1) ""

def header (p : String) (totalLines first : ℕ) (shownTo : ℤ) : String :=
  p ++ " (" ++ toString totalLines ++ " lines, showing " ++ toString first ++ "-" ++ toString shownTo ++ ")\n"

/-- What a call returns: lines `first` to `shownTo`, and behind them the marker if `more`. -/
structure Page where
  first : ℕ
  shownTo : ℤ
  totalLines : ℕ
  body : String
  more : Bool
deriving DecidableEq

def Page.text (p : String) (page : Page) : String :=
  header p page.totalLines page.first page.shownTo ++ page.body ++
    if page.more then readContinuationMarker p page.first page.shownTo.toNat page.totalLines else ""

/-- The loop that takes lines as long as the text up to them fits. -/
def cut (budget : ℤ) (render : ℕ → String) (text : ℕ → String → String) : List ℕ → ℕ × String → ℕ × String
  | [], shown => shown
  | i :: rest, (shownTo, body) =>
      let candidateBody := if body = "" then render i else body ++ "\n" ++ render i
      if budget < renderedByteLength (text i candidateBody) then (shownTo, body)
      else cut budget render text rest (i, candidateBody)

/-- `budget`: what is left of `maxBytes` behind the reserve. -/
def budgetOf (maxBytes : ℤ) : ℤ := max 1 (maxBytes - min 512 (max 64 (maxBytes / 10)))

def formatPage (p fileContent : String) (opts : ReadOpts) (maxBytes : ℤ) : Page :=
  let lines := linesOf fileContent
  let totalLines := lines.length
  let last : ℤ := min totalLines (opts.last.getD totalLines)
  let first := (max 1 (min (opts.first.getD 1) last)).toNat
  let range := List.range' first (last.toNat + 1 - first)
  let render := renderLine lines opts.numbers
  let fullBody := "\n".intercalate (range.map render)
  let budget := budgetOf maxBytes
  if renderedByteLength (header p totalLines first last ++ fullBody) ≤ budget then
    ⟨first, last, totalLines, fullBody, false⟩
  else
    let text := fun (i : ℕ) candidateBody =>
      header p totalLines first i ++ candidateBody ++ readContinuationMarker p first i totalLines
    let shown := cut budget render text range (first - 1, "")
    if shown.1 < first then ⟨first, first, totalLines, render first, true⟩
    else ⟨first, shown.1, totalLines, shown.2, true⟩

def formatRead (p fileContent : String) (opts : ReadOpts) (maxBytes : ℤ) : String :=
  (formatPage p fileContent opts maxBytes).text p

/-! ## Sizes -/

theorem renderedByteLength_append (s t : String) :
    renderedByteLength (s ++ t) = renderedByteLength s + renderedByteLength t := by
  unfold renderedByteLength
  rw [String.toList_append, List.map_append, List.sum_append]

theorem renderedByteLength_digits (n : ℕ) : renderedByteLength (toString n) = (Nat.toDigits 10 n).length := by
  have hsum : ∀ cs : List Char, (∀ c ∈ cs, c.isDigit = true) → (cs.map Char.utf8Size).sum = cs.length := by
    intro cs
    induction cs with
    | nil => intro _; rfl
    | cons c cs ih =>
        intro h
        have hc := h c List.mem_cons_self
        have hone : c.utf8Size = 1 := by
          rw [Char.utf8Size_eq_one_iff]
          simp only [Char.isDigit, Bool.and_eq_true, decide_eq_true_eq] at hc
          exact UInt32.le_trans hc.2 (by decide)
        rw [List.map_cons, List.sum_cons, ih (fun d hd => h d (List.mem_cons_of_mem c hd)), hone, List.length_cons,
          Nat.add_comm]
  unfold renderedByteLength
  rw [Nat.toString_eq_ofList_toDigits, String.toList_ofList]
  exact hsum _ (fun c hc => Nat.isDigit_of_mem_toDigits (by decide) (by decide) hc)

/-- One more takes at most one digit more. -/
theorem digits_add_le (n k : ℕ) :
    renderedByteLength (toString (n + k)) ≤ renderedByteLength (toString n) + k := by
  induction k with
  | zero => rfl
  | succ k ih =>
      have hstep : (Nat.toDigits 10 (n + (k + 1))).length ≤ (Nat.toDigits 10 (n + k)).length + 1 := by
        have hpos : 0 < (Nat.toDigits 10 (n + k)).length := Nat.length_toDigits_pos
        have hlt := (Nat.length_toDigits_le_iff (by decide) hpos).mp (le_refl (Nat.toDigits 10 (n + k)).length)
        rw [Nat.length_toDigits_le_iff (by decide) (Nat.succ_pos _), Nat.pow_succ]
        omega
      rw [renderedByteLength_digits, renderedByteLength_digits] at ih ⊢
      omega

/-! ## The lines of a page -/

/-- Lines `first` to `shownTo`, rendered and joined. -/
def bodyTo (render : ℕ → String) (first shownTo : ℕ) : String :=
  "\n".intercalate ((List.range' first (shownTo + 1 - first)).map render)

section Body
variable {render : ℕ → String} {first : ℕ}

theorem bodyTo_first (first : ℕ) : bodyTo render first first = render first := by
  unfold bodyTo
  rw [Nat.add_sub_cancel_left, List.range'_one, List.map_singleton, String.intercalate_singleton]

theorem bodyTo_succ {shownTo : ℕ} (h : first ≤ shownTo) :
    bodyTo render first (shownTo + 1) = bodyTo render first shownTo ++ "\n" ++ render (shownTo + 1) := by
  obtain ⟨k, rfl⟩ := Nat.exists_eq_add_of_le h
  have hk : first + k + 1 + 1 - first = (k + 1) + 1 := by omega
  have hk' : first + k + 1 - first = k + 1 := by omega
  unfold bodyTo
  rw [hk, hk', List.range'_concat, List.map_append, String.intercalate_append_of_ne_nil (by simp) (by simp),
    List.map_singleton, String.intercalate_singleton, Nat.one_mul, ← Nat.add_assoc]

theorem bodyTo_ne_empty (hrender : ∀ i, render i ≠ "") {shownTo : ℕ} (h : first ≤ shownTo) :
    bodyTo render first shownTo ≠ "" := by
  obtain ⟨k, rfl⟩ := Nat.exists_eq_add_of_le h
  cases k with
  | zero =>
      rw [Nat.add_zero, bodyTo_first]
      exact hrender first
  | succ k =>
      rw [← Nat.add_assoc, bodyTo_succ (Nat.le_add_right _ _)]
      intro hempty
      rw [String.append_eq_empty_iff] at hempty
      exact hrender _ hempty.2

/-- Every line but the last takes a line end at least. -/
theorem bodyTo_length (k : ℕ) :
    k + renderedByteLength (render (first + k)) ≤ renderedByteLength (bodyTo render first (first + k)) := by
  induction k with
  | zero =>
      rw [Nat.add_zero, bodyTo_first]
      omega
  | succ k ih =>
      have hnewline : renderedByteLength "\n" = 1 := by decide
      rw [← Nat.add_assoc, bodyTo_succ (Nat.le_add_right _ _), renderedByteLength_append, renderedByteLength_append,
        hnewline]
      omega

/-- The loop stops behind some line, with the lines up to it, and with a text that fits if it took one. -/
theorem cut_spec (hrender : ∀ i, render i ≠ "") (budget : ℤ) (text : ℕ → String → String) (n : ℕ) {k : ℕ}
    (hfirst : 1 ≤ first) (hk : first ≤ k) :
    ∃ s, cut budget render text (List.range' k n) (k - 1, if k = first then "" else bodyTo render first (k - 1)) =
        (s, if s < first then "" else bodyTo render first s) ∧ k - 1 ≤ s ∧ s ≤ k - 1 + n ∧
      (k ≤ s → renderedByteLength (text s (bodyTo render first s)) ≤ budget) := by
  induction n generalizing k with
  | zero =>
      refine ⟨k - 1, ?_, le_rfl, le_rfl, fun h => by omega⟩
      rw [List.range'_zero, cut]
      congr 1
      by_cases heq : k = first
      · rw [if_pos heq, if_pos (by omega)]
      · rw [if_neg heq, if_neg (by omega)]
  | succ n ih =>
      have hcandidate : (if (if k = first then "" else bodyTo render first (k - 1)) = "" then render k
          else (if k = first then "" else bodyTo render first (k - 1)) ++ "\n" ++ render k) = bodyTo render first k := by
        by_cases heq : k = first
        · rw [if_pos heq, if_pos rfl, heq, bodyTo_first]
        · obtain ⟨j, rfl⟩ : ∃ j, k = j + 1 := ⟨k - 1, by omega⟩
          rw [if_neg heq, Nat.add_sub_cancel, if_neg (bodyTo_ne_empty hrender (by omega)), bodyTo_succ (by omega)]
      rw [List.range'_succ, cut]
      simp only [hcandidate]
      by_cases hover : budget < renderedByteLength (text k (bodyTo render first k))
      · rw [if_pos hover]
        refine ⟨k - 1, ?_, le_rfl, by omega, fun h => by omega⟩
        congr 1
        by_cases heq : k = first
        · rw [if_pos heq, if_pos (by omega)]
        · rw [if_neg heq, if_neg (by omega)]
      · rw [if_neg hover]
        obtain ⟨s, hs, hlow, hhigh, hfits⟩ := @ih (k + 1) (by omega)
        rw [Nat.add_sub_cancel, if_neg (by omega)] at hs
        refine ⟨s, hs, by omega, by omega, fun _ => ?_⟩
        by_cases hsk : s = k
        · rw [hsk]
          exact not_lt.mp hover
        · exact hfits (by omega)

end Body

/-! ## Reading from a line on -/

section Paging
variable (p fileContent : String) (maxBytes : ℤ)

/-- `read(p, { from })`. -/
def pageFrom (first : ℤ) : Page := formatPage p fileContent ⟨some first, none, true⟩ maxBytes

/-- The calls from a line on, each with the line that the marker of the one before names, until there is none. -/
inductive Reads : ℤ → List Page → Prop
  | last (first : ℤ) (hlast : (pageFrom p fileContent maxBytes first).more = false) :
      Reads first [pageFrom p fileContent maxBytes first]
  | next (first : ℤ) (pages : List Page) (hmore : (pageFrom p fileContent maxBytes first).more = true)
      (hrest : Reads ((pageFrom p fileContent maxBytes first).shownTo + 1) pages) :
      Reads first (pageFrom p fileContent maxBytes first :: pages)

/-- A line of the file as a page shows it. -/
def shownLine (lineNo : ℕ) : String := renderLine (linesOf fileContent) true lineNo

/-- The bytes of the lines from `first` to the end under their header, without a marker. -/
def restLength (first : ℕ) : ℕ :=
  renderedByteLength (header p (linesOf fileContent).length first (linesOf fileContent).length ++
    bodyTo (shownLine fileContent) first (linesOf fileContent).length)

/-- The numbers of the lines of a page. -/
def Page.lineNumbers (page : Page) : List ℕ := List.range' page.first (page.shownTo.toNat + 1 - page.first)

variable {p fileContent maxBytes}

theorem linesOf_ne_nil (fileContent : String) : 1 ≤ (linesOf fileContent).length := by
  unfold linesOf
  rw [List.length_map, Nat.one_le_iff_ne_zero, Ne, List.length_eq_zero_iff]
  exact List.splitOn_ne_nil _ _

theorem shownLine_ne_empty (fileContent : String) (i : ℕ) : shownLine fileContent i ≠ "" := by
  unfold shownLine renderLine
  rw [if_pos rfl]
  intro hempty
  rw [String.append_eq_empty_iff, String.append_eq_empty_iff] at hempty
  exact absurd hempty.1.2 (by decide)

/-- What a page from a line on shows. -/
structure Shows (p fileContent : String) (maxBytes : ℤ) (first shownTo : ℕ) (page : Page) : Prop where
  begins : page.first = first
  ends : page.shownTo = shownTo
  atLeast : first ≤ shownTo
  atMost : shownTo ≤ (linesOf fileContent).length
  body : page.body = bodyTo (shownLine fileContent) first shownTo
  /-- There is no marker exactly if the rest fits, and then all of it is shown. -/
  fits : page.more = false ↔ (restLength p fileContent first : ℤ) ≤ budgetOf maxBytes
  whole : page.more = false → shownTo = (linesOf fileContent).length
  /-- A page with a marker that comes to the last line shows nothing else. -/
  alone : page.more = true → shownTo = (linesOf fileContent).length → first = shownTo
  /-- Only a page of one line may be too long. -/
  within : first < shownTo → (renderedByteLength (page.text p) : ℤ) ≤ budgetOf maxBytes

theorem pageFrom_shows (n : ℤ) :
    ∃ shownTo, Shows p fileContent maxBytes (max 1 (min n (linesOf fileContent).length)).toNat shownTo
      (pageFrom p fileContent maxBytes n) := by
  have hlines := linesOf_ne_nil fileContent
  have hfirst : 1 ≤ (max 1 (min n ((linesOf fileContent).length : ℤ))).toNat ∧
      (max 1 (min n ((linesOf fileContent).length : ℤ))).toNat ≤ (linesOf fileContent).length := by
    omega
  unfold pageFrom formatPage
  simp only [Option.getD_none, Option.getD_some, min_self, Int.toNat_natCast]
  generalize (max 1 (min n ((linesOf fileContent).length : ℤ))).toNat = first at hfirst ⊢
  obtain ⟨hone, hle⟩ := hfirst
  by_cases hfits : (renderedByteLength (header p (linesOf fileContent).length first (linesOf fileContent).length ++
      "\n".intercalate ((List.range' first ((linesOf fileContent).length + 1 - first)).map
        (renderLine (linesOf fileContent) true))) : ℤ) ≤ budgetOf maxBytes
  · rw [if_pos hfits]
    refine ⟨(linesOf fileContent).length, rfl, rfl, hle, le_rfl, rfl, iff_of_true rfl hfits, fun _ => rfl, Bool.noConfusion,
      ?_⟩
    intro _
    unfold Page.text
    simp only [Bool.false_eq_true, if_false, String.append_empty]
    exact hfits
  · rw [if_neg hfits]
    obtain ⟨s, hs, hlow, hhigh, hbudget⟩ := cut_spec (shownLine_ne_empty fileContent) (budgetOf maxBytes)
      (fun i candidateBody => header p (linesOf fileContent).length first i ++ candidateBody ++
        readContinuationMarker p first i (linesOf fileContent).length)
      ((linesOf fileContent).length + 1 - first) hone le_rfl
    rw [if_pos rfl] at hs
    have hcut : cut (budgetOf maxBytes) (renderLine (linesOf fileContent) true)
        (fun i candidateBody => header p (linesOf fileContent).length first i ++ candidateBody ++
          readContinuationMarker p first i (linesOf fileContent).length)
        (List.range' first ((linesOf fileContent).length + 1 - first)) (first - 1, "") = _ := hs
    rw [hcut]
    by_cases hnone : s < first
    · rw [if_pos hnone]
      refine ⟨first, rfl, rfl, le_rfl, hle, (@bodyTo_first (shownLine fileContent) first).symm,
        iff_of_false Bool.noConfusion hfits, Bool.noConfusion, fun _ _ => rfl, ?_⟩
      exact fun h => absurd h (lt_irrefl _)
    · simp only [if_neg hnone]
      have hwithin := hbudget (not_lt.mp hnone)
      refine ⟨s, rfl, rfl, not_lt.mp hnone, by omega, rfl, iff_of_false Bool.noConfusion hfits, Bool.noConfusion, ?_,
        fun _ => hwithin⟩
      -- with the marker the rest would fit, and without it the more
      intro _ hall
      refine absurd ?_ hfits
      rw [hall, renderedByteLength_append] at hwithin
      unfold bodyTo at hwithin
      exact le_trans (Nat.cast_le.mpr (Nat.le_add_right _ _)) hwithin

theorem restLength_last {first : ℕ} (hle : first ≤ (linesOf fileContent).length) :
    restLength p fileContent (linesOf fileContent).length ≤ restLength p fileContent first := by
  obtain ⟨k, hk⟩ := Nat.exists_eq_add_of_le hle
  unfold restLength
  rw [hk]
  have hbody := @bodyTo_length (shownLine fileContent) first k
  have hdigits := digits_add_le first k
  rw [bodyTo_first]
  unfold header
  simp only [renderedByteLength_append]
  omega

/-- A reading that ends covers the lines from its first on, if the last line fits by itself. -/
theorem reads_cover (hlast : (restLength p fileContent (linesOf fileContent).length : ℤ) ≤ budgetOf maxBytes)
    (k : ℕ) : ∀ n : ℕ, 1 ≤ n → n + k = (linesOf fileContent).length →
      ∃ pages, Reads p fileContent maxBytes n pages ∧
        (∀ page ∈ pages, page.body = bodyTo (shownLine fileContent) page.first page.shownTo.toNat) ∧
        pages.flatMap Page.lineNumbers = List.range' n (k + 1) := by
  induction k using Nat.strong_induction_on with
  | _ k ih =>
      intro n hn hk
      obtain ⟨s, hs⟩ := @pageFrom_shows p fileContent maxBytes n
      have hfirst : (max 1 (min (n : ℤ) (linesOf fileContent).length)).toNat = n := by omega
      rw [hfirst] at hs
      have hbody : (pageFrom p fileContent maxBytes n).body = bodyTo (shownLine fileContent)
          (pageFrom p fileContent maxBytes n).first (pageFrom p fileContent maxBytes n).shownTo.toNat := by
        rw [hs.body, hs.begins, hs.ends, Int.toNat_natCast]
      have hnumbers : (pageFrom p fileContent maxBytes n).lineNumbers = List.range' n (s + 1 - n) := by
        rw [Page.lineNumbers, hs.begins, hs.ends, Int.toNat_natCast]
      cases hmore : (pageFrom p fileContent maxBytes n).more with
      | false =>
          refine ⟨_, .last _ hmore, ?_, ?_⟩
          · intro page hpage
            rw [List.mem_singleton.mp hpage]
            exact hbody
          · rw [List.flatMap_singleton, hnumbers, hs.whole hmore]
            congr 1
            omega
      | true =>
          -- the page ends before the last line, for that would fit
          have hbefore : s < (linesOf fileContent).length := by
            by_contra hge
            have hall : s = (linesOf fileContent).length := le_antisymm hs.atMost (not_lt.mp hge)
            have hn' : n = (linesOf fileContent).length := (hs.alone hmore hall).trans hall
            have hfits := hs.fits.mpr (hn' ▸ hlast)
            rw [hmore] at hfits
            cases hfits
          obtain ⟨pages, hpages, hbodies, hcover⟩ := ih (k - (s + 1 - n)) (by have := hs.atLeast; omega) (s + 1)
            (by omega) (by have := hs.atLeast; omega)
          refine ⟨_, .next _ pages hmore ?_, ?_, ?_⟩
          · rw [hs.ends]
            exact hpages
          · intro page hpage
            rcases List.mem_cons.mp hpage with rfl | hpage
            · exact hbody
            · exact hbodies page hpage
          · have hle := hs.atLeast
            obtain ⟨j, rfl⟩ := Nat.exists_eq_add_of_le hle
            have hcount : n + j + 1 - n = j + 1 := by omega
            have hjoin := @List.range'_append n (j + 1) (k - (j + 1) + 1) 1
            rw [Nat.one_mul, ← Nat.add_assoc] at hjoin
            rw [List.flatMap_cons, hnumbers, hcover, hcount, hjoin]
            congr 1
            omega

/-- Where the last line does not fit by itself, every page has a marker. -/
theorem more_of_long (hlast : budgetOf maxBytes < (restLength p fileContent (linesOf fileContent).length : ℤ)) (n : ℤ) :
    (pageFrom p fileContent maxBytes n).more = true := by
  obtain ⟨s, hs⟩ := @pageFrom_shows p fileContent maxBytes n
  by_contra hmore
  have hfits := hs.fits.mp (Bool.eq_false_iff.mpr hmore)
  have hlonger := @restLength_last p fileContent _ (hs.atLeast.trans hs.atMost)
  omega

theorem not_reads (hlast : budgetOf maxBytes < (restLength p fileContent (linesOf fileContent).length : ℤ)) {n : ℤ}
    {pages : List Page} : ¬Reads p fileContent maxBytes n pages := by
  intro h
  induction h with
  | last n hnone =>
      rw [more_of_long hlast n] at hnone
      cases hnone
  | next n pages _ _ ih => exact ih

variable (p fileContent maxBytes)

/-- Read from line 1 on, the file comes to an end, each line shown once and in order; and no page of more than
one line is too long. -/
structure Paged : Prop where
  ends : ∃ pages, Reads p fileContent maxBytes 1 pages ∧
    (∀ page ∈ pages, page.body = bodyTo (shownLine fileContent) page.first page.shownTo.toNat) ∧
    pages.flatMap Page.lineNumbers = List.range' 1 (linesOf fileContent).length
  within : ∀ n, (pageFrom p fileContent maxBytes n).first < (pageFrom p fileContent maxBytes n).shownTo →
    (renderedByteLength (formatRead p fileContent ⟨some n, none, true⟩ maxBytes) : ℤ) ≤ budgetOf maxBytes

/-- That is so exactly if the last line fits by itself, under its header and without a marker. -/
theorem paged_iff :
    Paged p fileContent maxBytes ↔
      (renderedByteLength (header p (linesOf fileContent).length (linesOf fileContent).length
        (linesOf fileContent).length ++ shownLine fileContent (linesOf fileContent).length) : ℤ) ≤ budgetOf maxBytes := by
  have hlines := linesOf_ne_nil fileContent
  have hrest : renderedByteLength (header p (linesOf fileContent).length (linesOf fileContent).length
      (linesOf fileContent).length ++ shownLine fileContent (linesOf fileContent).length) =
      restLength p fileContent (linesOf fileContent).length := by
    rw [restLength, bodyTo_first]
  rw [hrest]
  constructor
  · rintro ⟨⟨pages, hpages, _⟩, _⟩
    by_contra hlong
    exact not_reads (not_le.mp hlong) hpages
  · intro hlast
    refine ⟨?_, fun n hmany => ?_⟩
    · obtain ⟨pages, hpages, hbodies, hcover⟩ :=
        reads_cover hlast ((linesOf fileContent).length - 1) 1 le_rfl (by omega)
      refine ⟨pages, hpages, hbodies, ?_⟩
      rwa [Nat.sub_add_cancel hlines] at hcover
    · obtain ⟨s, hs⟩ := @pageFrom_shows p fileContent maxBytes n
      refine hs.within ?_
      rw [hs.begins, hs.ends] at hmany
      exact Nat.cast_lt.mp hmany

/-- A line that does not fit is shown again and again. -/
theorem long_line_repeated :
    pageFrom "notes.txt" "a line of thirty-six characters or so" 100 2 =
        pageFrom "notes.txt" "a line of thirty-six characters or so" 100 1 ∧
      (pageFrom "notes.txt" "a line of thirty-six characters or so" 100 1).more = true ∧
      (pageFrom "notes.txt" "a line of thirty-six characters or so" 100 1).shownTo + 1 = 2 ∧
      ¬Paged "notes.txt" "a line of thirty-six characters or so" 100 := by
  refine ⟨by decide +kernel, by decide +kernel, by decide +kernel, ?_⟩
  rintro ⟨⟨pages, hpages, _⟩, _⟩
  exact not_reads (by decide) hpages

end Paging

end Elpis.Sandbox.Read
