import Elpis.Sandbox.Jslex

/-!
# What is inside a literal

The nesting of strings, comments and templates as the language has it: a substitution is code again,
with literals of its own, and a template goes on behind the brace that closes its substitution. The
lexer keeps one template open over all of that and never looks at what is inside a substitution, so
both agree on where the template ends as long as no backtick stands there.
-/

namespace Elpis.Jslex

/-! ## The nesting -/

inductive Part where
  | code | single | double | template | lineComment | blockComment
deriving DecidableEq, Repr

/-- Where a unit stands. -/
structure Place where
  /-- The open braces of each substitution around it, the innermost first. -/
  substitutions : List ℕ := []
  part : Part := .code
  /-- It is the second unit of a pair. -/
  second : Bool := false
deriving DecidableEq, Repr

/-- Behind a unit of a string of this quote. -/
def Place.behindQuoted (place : Place) (quote c : ℕ) : Place :=
  if c = '\\'.toNat then { place with second := true }
  else if c = quote then { place with part := .code }
  else if c = '\n'.toNat then { place with part := .code }
  else place

/-- Behind a unit of code that begins neither a comment nor a literal. -/
def Place.behindCode (place : Place) (c : ℕ) : Place :=
  match place.substitutions with
  | [] => place
  | braces :: around =>
      if c = '{'.toNat then { place with substitutions := (braces + 1) :: around }
      else if c = '}'.toNat then
        if braces = 0 then { substitutions := around, part := .template }
        else { place with substitutions := (braces - 1) :: around }
      else place

/-- The place behind a unit. Regular expressions are not told from divisions. -/
def Place.behind (place : Place) (c : ℕ) (next : Option ℕ) : Place :=
  if place.second then { place with second := false }
  else
    match place.part with
    | .code =>
        if c = '/'.toNat ∧ next = some '/'.toNat then { place with part := .lineComment, second := true }
        else if c = '/'.toNat ∧ next = some '*'.toNat then { place with part := .blockComment, second := true }
        else if c = '\x27'.toNat then { place with part := .single }
        else if c = '"'.toNat then { place with part := .double }
        else if c = '`'.toNat then { place with part := .template }
        else place.behindCode c
    | .single => place.behindQuoted '\x27'.toNat c
    | .double => place.behindQuoted '"'.toNat c
    | .template =>
        if c = '\\'.toNat then { place with second := true }
        else if c = '`'.toNat then { place with part := .code }
        else if c = '$'.toNat ∧ next = some '{'.toNat then
          { substitutions := 0 :: place.substitutions, part := .code, second := true }
        else place
    | .lineComment => if c = '\n'.toNat then { place with part := .code } else place
    | .blockComment =>
        if c = '*'.toNat ∧ next = some '/'.toNat then { place with part := .code, second := true } else place

/-- The places of the units of a text. -/
def placesFrom : Place → Text → List Place
  | _, [] => []
  | place, c :: cs => place :: placesFrom (place.behind c cs.head?) cs

/-- A unit is inside a string, a comment or a template: not what stands around it, and of a comment
all, of a template all that is between its backticks. -/
def Place.inside (place : Place) (c : ℕ) (next : Option ℕ) : Bool :=
  place.second || decide (place.substitutions ≠ []) ||
    match place.part with
    | .code => decide (c = '/'.toNat ∧ (next = some '/'.toNat ∨ next = some '*'.toNat))
    | .single => decide (c ≠ '\x27'.toNat)
    | .double => decide (c ≠ '"'.toNat)
    | .template => decide (c ≠ '`'.toNat)
    | .lineComment => true
    | .blockComment => true

/-- A backtick inside a substitution, if not escaped in a string. -/
def Place.backtick (place : Place) (c : ℕ) : Bool :=
  decide (c = '`'.toNat) && decide (place.substitutions ≠ []) &&
    !(place.second && (decide (place.part = .single) || decide (place.part = .double)))

/-! ## The lexer keeps up -/

/-- The mode of what is being read in no template. -/
def Part.mode : Part → Mode
  | .code => .code
  | .single => .single
  | .double => .double
  | .template => .template 1 0
  | .lineComment => .lineComment
  | .blockComment => .blockComment

/-- The mode that the lexer is in at a place, where this unit comes next. Inside a substitution it may
have taken the unit for the second of a pair; but not that behind an escape in a string. -/
inductive Matches : Place → Mode → Option ℕ → Prop
  | one {part : Part} {c : Option ℕ} (h : part ≠ .template) : Matches { part := part } part.mode c
  | pair {part : Part} {c : Option ℕ} (h : part ≠ .template) :
      Matches { part := part, second := true } (.second part.mode) c
  | template {braceDepth : ℕ} {c : Option ℕ} : Matches { part := .template } (.template 1 braceDepth) c
  | escaped {braceDepth : ℕ} {c : Option ℕ} :
      Matches { part := .template, second := true } (.second (.template 1 braceDepth)) c
  | substitution {place : Place} {braceDepth : ℕ} {c : Option ℕ} (h : place.substitutions ≠ [])
      (hescaped : place.second = true → place.part ≠ .single ∧ place.part ≠ .double) :
      Matches place (.template 1 braceDepth) c
  | skipped {place : Place} {braceDepth : ℕ} {c : Option ℕ} (h : place.substitutions ≠ [])
      (hstring : place.part = .single ∨ place.part = .double → place.second = true ∨ c = some '{'.toNat) :
      Matches place (.second (.template 1 braceDepth)) c

theorem matches_code (c : Option ℕ) : Matches {} .code c := @Matches.one .code c (by rintro ⟨⟩)

section Step
variable {place : Place} {c : ℕ} {next : Option ℕ}

/-- A substitution is left by its brace, to the text of its template. -/
theorem behind_substitution (c : ℕ) (next : Option ℕ) (h : place.substitutions ≠ []) :
    (place.behind c next).substitutions ≠ [] ∨ (c = '}'.toNat ∧ place.behind c next = { part := .template }) := by
  obtain ⟨substitutions, part, second⟩ := place
  cases second with
  | true => exact Or.inl h
  | false =>
      cases part with
      | code =>
          cases substitutions with
          | nil => exact absurd rfl h
          | cons braces around => cases around <;> grind [Place.behind, Place.behindCode]
      | single => grind [Place.behind, Place.behindQuoted]
      | double => grind [Place.behind, Place.behindQuoted]
      | template => grind [Place.behind]
      | lineComment => grind [Place.behind]
      | blockComment => grind [Place.behind]

/-- Whether the lexer may take the unit that comes for the second of a pair, and whether it must. -/
theorem behind_string {place : Place} {c : ℕ} {next : Option ℕ} (hstring : (place.behind c next).part = .single ∨ (place.behind c next).part = .double) :
    (place.behind c next).second = true ↔
      c = '\\'.toNat ∧ place.second = false ∧ (place.part = .single ∨ place.part = .double) := by
  obtain ⟨substitutions, part, second⟩ := place
  cases second with
  | true => simp [Place.behind]
  | false =>
      cases part with
      | code => cases substitutions <;> grind [Place.behind, Place.behindCode]
      | single => grind [Place.behind, Place.behindQuoted]
      | double => grind [Place.behind, Place.behindQuoted]
      | template => grind [Place.behind]
      | lineComment => grind [Place.behind]
      | blockComment => grind [Place.behind]

theorem behind_backslash (hc : c = '\\'.toNat) : (place.behind c next).part = place.part := by
  obtain ⟨substitutions, part, second⟩ := place
  subst hc
  cases second with
  | true => rfl
  | false =>
      cases part with
      | code => cases substitutions <;> rfl
      | single => rfl
      | double => rfl
      | template => rfl
      | lineComment => rfl
      | blockComment => rfl

theorem lex_template (next : Option ℕ) (braceDepth : ℕ) (hc : c ≠ '`'.toNat) :
    ∃ braceDepth', lex (.template 1 braceDepth) c next = (blank c, .template 1 braceDepth') ∧ c ≠ '\\'.toNat ∨
      lex (.template 1 braceDepth) c next = (blank c, .second (.template 1 braceDepth')) ∧
        (c = '\\'.toNat ∨ c = '$'.toNat ∧ c ≠ '\\'.toNat ∧ next = some '{'.toNat) := by
  change ∃ braceDepth', inTemplate 1 braceDepth c next = _ ∧ _ ∨ inTemplate 1 braceDepth c next = _ ∧ _
  rw [inTemplate, if_neg hc]
  split_ifs with hescape hopen
  · exact ⟨_, Or.inr ⟨rfl, Or.inl hescape⟩⟩
  · exact ⟨_, Or.inr ⟨rfl, Or.inr ⟨hopen.1, hescape, hopen.2⟩⟩⟩
  · exact ⟨_, Or.inl ⟨rfl, hescape⟩⟩
  · exact ⟨_, Or.inl ⟨rfl, hescape⟩⟩
  · exact ⟨_, Or.inl ⟨rfl, hescape⟩⟩

/-- In a substitution the lexer goes on in its template. -/
theorem matches_substitution (next : Option ℕ) {mode : Mode} (h : place.substitutions ≠ []) (hmatches : Matches place mode (some c))
    (hbacktick : place.backtick c = false) :
    Matches (place.behind c next) (lex mode c next).2 next ∧ (lex mode c next).1 = blank c := by
  have hleft := behind_substitution c next h
  have hstring' := @behind_string place c next
  cases hmatches with
  | one => exact absurd rfl h
  | pair => exact absurd rfl h
  | template => exact absurd rfl h
  | escaped => exact absurd rfl h
  | @substitution _ braceDepth _ _ hescaped =>
      have hc : c ≠ '`'.toNat := by
        rintro rfl
        -- a backtick that is allowed here is escaped in a string, and the lexer skips it
        rw [Place.backtick, decide_eq_true rfl, decide_eq_true h, Bool.and_self, Bool.true_and,
          Bool.not_eq_false', Bool.and_eq_true, Bool.or_eq_true, decide_eq_true_eq, decide_eq_true_eq] at hbacktick
        obtain ⟨hsecond, hpart⟩ := hbacktick
        exact hpart.elim (hescaped hsecond).1 (hescaped hsecond).2
      obtain ⟨braceDepth', ⟨hlex, hplain⟩ | ⟨hlex, hpair⟩⟩ := lex_template next braceDepth hc
      · rw [hlex]
        refine ⟨?_, rfl⟩
        rcases hleft with hleft | ⟨-, hleft⟩
        · refine Matches.substitution hleft (fun hsecond => ?_)
          by_contra hpart
          rw [← not_or, not_not] at hpart
          exact hplain ((hstring' hpart).mp hsecond).1
        · rw [hleft]
          exact Matches.template
      · rw [hlex]
        refine ⟨?_, rfl⟩
        rcases hleft with hleft | ⟨hclose, -⟩
        · refine Matches.skipped hleft (fun hpart => ?_)
          rcases hpair with hescape | ⟨-, -, hopen⟩
          · refine Or.inl ((hstring' hpart).mpr ⟨hescape, ?_⟩)
            have hsame : (place.behind c next).part = place.part := behind_backslash hescape
            rw [hsame] at hpart
            refine ⟨?_, hpart⟩
            by_contra hsecond
            rw [Bool.not_eq_false] at hsecond
            exact hpart.elim (hescaped hsecond).1 (hescaped hsecond).2
          · exact Or.inr hopen
        · rcases hpair with hescape | ⟨hopen, -⟩
          · exact absurd (hclose.symm.trans hescape) (by decide)
          · exact absurd (hclose.symm.trans hopen) (by decide)
  | skipped _ hstring =>
      refine ⟨?_, rfl⟩
      rcases hleft with hleft | ⟨-, hleft⟩
      · refine Matches.substitution hleft (fun hsecond => ?_)
        by_contra hpart
        rw [← not_or, not_not] at hpart
        obtain ⟨hescape, hone, hpart'⟩ := (hstring' hpart).mp hsecond
        rcases hstring hpart' with htwo | hbrace
        · rw [hone] at htwo
          cases htwo
        · exact absurd (hescape.symm.trans (Option.some.inj hbrace)) (by decide)
      · rw [hleft]
        exact Matches.template

theorem lex_code (c : ℕ) (next : Option ℕ) : lex .code c next =
    if c = '/'.toNat ∧ next = some '/'.toNat then (' '.toNat, .second .lineComment)
    else if c = '/'.toNat ∧ next = some '*'.toNat then (' '.toNat, .second .blockComment)
    else if c = '\x27'.toNat then (c, .single)
    else if c = '"'.toNat then (c, .double)
    else if c = '`'.toNat then (c, .template 1 0)
    else (c, .code) := rfl

theorem lex_lineComment (c : ℕ) (next : Option ℕ) :
    lex .lineComment c next = if c = '\n'.toNat then (c, .code) else (blank c, .lineComment) := rfl

theorem lex_blockComment (c : ℕ) (next : Option ℕ) : lex .blockComment c next =
    if c = '*'.toNat ∧ next = some '/'.toNat then (blank c, .second .code) else (blank c, .blockComment) := rfl

theorem blank_newline (hc : c = '\n'.toNat) : c = blank c := by
  rw [blank, if_pos hc, hc]

theorem matches_quoted (quote c : ℕ) (next : Option ℕ) {part : Part} (h : part ≠ .template) :
    Matches (Place.behindQuoted { part := part } quote c) (quoted part.mode quote c).2 next ∧
      (c ≠ quote → (quoted part.mode quote c).1 = blank c) := by
  unfold Place.behindQuoted quoted
  split_ifs with hescape hquote hline
  · exact ⟨Matches.pair h, fun _ => rfl⟩
  · exact ⟨matches_code next, fun hinside => absurd hquote hinside⟩
  · exact ⟨matches_code next, fun _ => blank_newline hline⟩
  · exact ⟨Matches.one h, fun _ => rfl⟩

theorem matches_one {part : Part} (h : part ≠ .template) :
    Matches (Place.behind { part := part } c next) (lex part.mode c next).2 next ∧
      (Place.inside { part := part } c next = true → (lex part.mode c next).1 = blank c) := by
  cases part with
  | code =>
      have hbehind : Place.behind {} c next =
          if c = '/'.toNat ∧ next = some '/'.toNat then { part := .lineComment, second := true }
          else if c = '/'.toNat ∧ next = some '*'.toNat then { part := .blockComment, second := true }
          else if c = '\x27'.toNat then { part := .single }
          else if c = '"'.toNat then { part := .double }
          else if c = '`'.toNat then { part := .template }
          else {} := rfl
      have hinside : Place.inside {} c next = true →
          c = '/'.toNat ∧ next = some '/'.toNat ∨ c = '/'.toNat ∧ next = some '*'.toNat := by
        intro hinside
        rw [← and_or_left]
        exact of_decide_eq_true hinside
      change Matches (Place.behind {} c next) (lex .code c next).2 next ∧
        (Place.inside {} c next = true → (lex .code c next).1 = blank c)
      rw [hbehind, lex_code]
      split_ifs with hline hblock hsingle hdouble htemplate
      · refine ⟨@Matches.pair .lineComment next nofun, fun _ => ?_⟩
        rw [hline.1]
        rfl
      · refine ⟨@Matches.pair .blockComment next nofun, fun _ => ?_⟩
        rw [hblock.1]
        rfl
      · exact ⟨@Matches.one .single next nofun, fun h => ((hinside h).elim hline hblock).elim⟩
      · exact ⟨@Matches.one .double next nofun, fun h => ((hinside h).elim hline hblock).elim⟩
      · exact ⟨Matches.template, fun h => ((hinside h).elim hline hblock).elim⟩
      · exact ⟨matches_code next, fun h => ((hinside h).elim hline hblock).elim⟩
  | single =>
      obtain ⟨hmatches, hblank⟩ := matches_quoted '\x27'.toNat c next h
      exact ⟨hmatches, fun hinside => hblank (of_decide_eq_true hinside)⟩
  | double =>
      obtain ⟨hmatches, hblank⟩ := matches_quoted '"'.toNat c next h
      exact ⟨hmatches, fun hinside => hblank (of_decide_eq_true hinside)⟩
  | template => exact absurd rfl h
  | lineComment =>
      have hbehind : Place.behind { part := .lineComment } c next =
          if c = '\n'.toNat then {} else { part := .lineComment } := rfl
      change Matches _ (lex .lineComment c next).2 next ∧ (_ → (lex .lineComment c next).1 = blank c)
      rw [hbehind, lex_lineComment]
      split_ifs with hline
      · exact ⟨matches_code next, fun _ => blank_newline hline⟩
      · exact ⟨Matches.one h, fun _ => rfl⟩
  | blockComment =>
      have hbehind : Place.behind { part := .blockComment } c next =
          if c = '*'.toNat ∧ next = some '/'.toNat then { second := true } else { part := .blockComment } := rfl
      change Matches _ (lex .blockComment c next).2 next ∧ (_ → (lex .blockComment c next).1 = blank c)
      rw [hbehind, lex_blockComment]
      split_ifs with hclose
      · exact ⟨@Matches.pair .code next nofun, fun _ => rfl⟩
      · exact ⟨Matches.one h, fun _ => rfl⟩

/-- In the text of a template that no substitution is around. -/
theorem matches_template (braceDepth : ℕ) :
    Matches (Place.behind { part := .template } c next) (lex (.template 1 braceDepth) c next).2 next ∧
      (Place.inside { part := .template } c next = true → (lex (.template 1 braceDepth) c next).1 = blank c) := by
  have hbehind : Place.behind { part := .template } c next =
      if c = '\\'.toNat then { part := .template, second := true }
      else if c = '`'.toNat then {}
      else if c = '$'.toNat ∧ next = some '{'.toNat then { substitutions := [0], second := true }
      else { part := .template } := rfl
  change Matches _ (inTemplate 1 braceDepth c next).2 next ∧ (_ → (inTemplate 1 braceDepth c next).1 = blank c)
  rw [hbehind, inTemplate]
  split_ifs with hescape hclose hlast hopen
  · exact ⟨Matches.escaped, fun _ => rfl⟩
  · exact ⟨matches_code next, fun hinside => absurd hclose (of_decide_eq_true hinside)⟩
  · exact absurd rfl hlast
  · exact ⟨Matches.skipped (List.cons_ne_nil _ _) (by rintro (⟨⟨⟩⟩ | ⟨⟨⟩⟩)), fun _ => rfl⟩
  · exact ⟨Matches.template, fun _ => rfl⟩
  · exact ⟨Matches.template, fun _ => rfl⟩
  · exact ⟨Matches.template, fun _ => rfl⟩

/-- One unit: the lexer stays in step, and blanks what is inside a literal. -/
theorem matches_behind (next : Option ℕ) {mode : Mode} (hmatches : Matches place mode (some c)) (hbacktick : place.backtick c = false) :
    Matches (place.behind c next) (lex mode c next).2 next ∧
      (place.inside c next = true → (lex mode c next).1 = blank c) := by
  by_cases h : place.substitutions = []
  · cases hmatches with
    | one hpart => exact matches_one hpart
    | pair hpart => exact ⟨Matches.one hpart, fun _ => rfl⟩
    | template => exact matches_template _
    | escaped => exact ⟨Matches.template, fun _ => rfl⟩
    | substitution hsubs => exact absurd h hsubs
    | skipped hsubs => exact absurd h hsubs
  · obtain ⟨hmatches', hblank⟩ := matches_substitution next h hmatches hbacktick
    exact ⟨hmatches', fun _ => hblank⟩

end Step

/-! ## A whole text -/

theorem quoted_keeps (mode : Mode) (quote c : ℕ) :
    (quoted mode quote c).1 = c ∨ (quoted mode quote c).1 = blank c := by
  unfold quoted
  split_ifs
  · exact Or.inr rfl
  · exact Or.inl rfl
  · exact Or.inl rfl
  · exact Or.inr rfl

theorem inTemplate_keeps (templateDepth braceDepth c : ℕ) (next : Option ℕ) :
    (inTemplate templateDepth braceDepth c next).1 = c ∨
      (inTemplate templateDepth braceDepth c next).1 = blank c := by
  unfold inTemplate
  split_ifs with _ _ hlast
  · exact Or.inr rfl
  · exact Or.inl rfl
  all_goals exact Or.inr rfl

theorem lex_keeps (mode : Mode) (c : ℕ) (next : Option ℕ) :
    (lex mode c next).1 = c ∨ (lex mode c next).1 = blank c := by
  cases mode with
  | code =>
      rw [lex_code]
      split_ifs with hline hblock
      · rw [hline.1]
        exact Or.inr rfl
      · rw [hblock.1]
        exact Or.inr rfl
      all_goals exact Or.inl rfl
  | single => exact quoted_keeps .single _ c
  | double => exact quoted_keeps .double _ c
  | template templateDepth braceDepth => exact inTemplate_keeps templateDepth braceDepth c next
  | lineComment =>
      rw [lex_lineComment]
      split_ifs
      · exact Or.inl rfl
      · exact Or.inr rfl
  | blockComment =>
      rw [lex_blockComment]
      split_ifs
      · exact Or.inr rfl
      · exact Or.inr rfl
  | second => exact Or.inr rfl

theorem blankFrom_keeps (mode : Mode) {cs : Text} {i c : ℕ} (hc : cs[i]? = some c) :
    (blankFrom mode cs)[i]? = some c ∨ (blankFrom mode cs)[i]? = some (blank c) := by
  induction cs generalizing mode i with
  | nil => cases hc
  | cons d cs ih =>
      cases i with
      | zero =>
          obtain rfl : d = c := Option.some.inj hc
          exact (lex_keeps mode d cs.head?).imp (congrArg some) (congrArg some)
      | succ i => exact ih _ hc

theorem blankFrom_inside {place : Place} {mode : Mode} {cs : Text} {i c : ℕ} {here : Place}
    (hmatches : Matches place mode cs.head?) (hc : cs[i]? = some c) (hhere : (placesFrom place cs)[i]? = some here)
    (hinside : here.inside c cs[i + 1]? = true)
    (hplain : ∀ (j d : ℕ) (before : Place), j ≤ i → cs[j]? = some d → (placesFrom place cs)[j]? = some before →
      before.backtick d = false) :
    (blankFrom mode cs)[i]? = some (blank c) := by
  induction cs generalizing place mode i with
  | nil => cases hc
  | cons d cs ih =>
      have hstep := matches_behind cs.head? hmatches (hplain 0 d place (Nat.zero_le i) rfl rfl)
      cases i with
      | zero =>
          obtain rfl : d = c := Option.some.inj hc
          obtain rfl : place = here := Option.some.inj hhere
          rw [zero_add, List.getElem?_cons_succ, ← List.head?_eq_getElem?] at hinside
          exact congrArg some (hstep.2 hinside)
      | succ i =>
          exact ih hstep.1 hc hhere hinside (fun j e before hj => hplain (j + 1) e before (Nat.succ_le_succ hj))

/-- Each unit stays or is blanked, the text keeps its length and its line feeds, and up to the first
backtick inside a substitution nothing is left of what is inside a string, a comment or a template. -/
theorem blankLiterals_spec (code : Text) :
    (blankLiterals code).length = code.length ∧
    (∀ i c : ℕ, code[i]? = some c →
      (blankLiterals code)[i]? = some c ∨ (blankLiterals code)[i]? = some ' '.toNat) ∧
    (∀ i : ℕ, code[i]? = some '\n'.toNat → (blankLiterals code)[i]? = some '\n'.toNat) ∧
    ∀ (i c : ℕ) (place : Place), code[i]? = some c → (placesFrom {} code)[i]? = some place →
      place.inside c code[i + 1]? = true →
      (∀ (j d : ℕ) (before : Place), j ≤ i → code[j]? = some d → (placesFrom {} code)[j]? = some before →
        before.backtick d = false) →
      (blankLiterals code)[i]? = some (blank c) := by
  refine ⟨length_blankFrom .code code, fun i c hc => ?_, fun i hc => ?_, fun i c place hc hplace hinside hplain => ?_⟩
  · rcases blankFrom_keeps .code hc with hkept | hblank
    · exact Or.inl hkept
    · by_cases hline : c = '\n'.toNat
      · rw [← blank_newline hline] at hblank
        exact Or.inl hblank
      · rw [blank, if_neg hline] at hblank
        exact Or.inr hblank
  · have hline : blank '\n'.toNat = '\n'.toNat := rfl
    rcases blankFrom_keeps .code hc with hkept | hblank
    · exact hkept
    · rw [hline] at hblank
      exact hblank
  · exact blankFrom_inside (matches_code _) hc hplace hinside hplain

/-- A regular expression stays as it is, and another line end than the line feed is blanked. -/
theorem blankLiterals_tolerant :
    blankLiterals (("=/ab/".toList).map Char.toNat) = ("=/ab/".toList).map Char.toNat ∧
      blankLiterals (("/*\r*/".toList).map Char.toNat) = ("     ".toList).map Char.toNat := by
  constructor
  · decide
  · decide

end Elpis.Jslex
