import Mathlib.Data.List.Basic
import Mathlib.Data.List.Infix

/-!
# Taking tags out of a text

A tag is a name between a `start` and a `stop`, which stand in no name. Taking a tag out can close
up what stood around it into another tag. Which tags are left after several passes, one tag a
pass, is a matter of which stretches `start … stop` of the text vanish, and in which pass.
-/

namespace Elpis.Lib.Tags

variable {α : Type}

/-! ## Tags -/

/-- What stands in a text as `start`, the name, `stop`. -/
@[ext] structure Tag (start stop : α) where
  name : List α
  no_start : start ∉ name
  no_stop : stop ∉ name
deriving DecidableEq

variable {start stop : α}

def Tag.text (t : Tag start stop) : List α := start :: (t.name ++ [stop])

theorem Tag.text_ne_nil (t : Tag start stop) : t.text ≠ [] := List.cons_ne_nil _ _

variable {t : Tag start stop}

theorem Tag.not_prefix {c : α} {text : List α} (hc : c ≠ start) : ¬t.text <+: c :: text := by
  intro h
  exact hc (List.cons_prefix_cons.mp h).1.symm

theorem prefix_of_append_cons {pat x y : List α} {c : α} (hc : c ∉ pat) (h : pat <+: x ++ c :: y) : pat <+: x := by
  induction x generalizing pat with
  | nil =>
      cases pat with
      | nil => exact List.nil_prefix
      | cons a pat =>
          obtain ⟨rfl, -⟩ := List.cons_prefix_cons.mp h
          simp at hc
  | cons b x ih =>
      cases pat with
      | nil => exact List.nil_prefix
      | cons a pat =>
          obtain ⟨rfl, hp⟩ := List.cons_prefix_cons.mp h
          exact List.cons_prefix_cons.mpr ⟨rfl, ih (List.not_mem_of_not_mem_cons hc) hp⟩

theorem Tag.prefix_of_append (hne : start ≠ stop) {a : α} {x y : List α}
    (h : t.text <+: a :: (x ++ start :: y)) : t.text <+: a :: x := by
  obtain ⟨rfl, hrest⟩ := List.cons_prefix_cons.mp h
  refine List.cons_prefix_cons.mpr ⟨rfl, prefix_of_append_cons ?_ hrest⟩
  simp [t.no_start, hne]

/-! ## Stretches that vanish -/

/-- `Sheds tags b u`: taking out the `tags` one after another brings the text `b` down to `u`. What
    is gone are stretches `start … stop` that come down to a tag before its own pass. -/
inductive Sheds : List (Tag start stop) → List α → List α → Prop
  | nil (tags) : Sheds tags [] []
  | keep (c) {tags b u} (rest : Sheds tags b u) : Sheds tags (c :: b) (c :: u)
  | drop {tags before t b r u} (turn : before ++ [t] <+: tags) (inside : Sheds before b t.name)
      (rest : Sheds tags r u) : Sheds tags (start :: (b ++ stop :: r)) u

/-- `b` comes down to the name of `d`, but not before the pass in which `d` is taken out. -/
def Late (tags : List (Tag start stop)) (d : Tag start stop) (b : List α) : Prop :=
  Sheds tags b d.name ∧ ∀ before, before ++ [d] <+: tags → ¬Sheds before b d.name

variable {tags : List (Tag start stop)}

theorem Sheds.refl (b : List α) : Sheds tags b b := by
  induction b with
  | nil => exact .nil tags
  | cons c b ih => exact .keep c ih

theorem Sheds.mono {tags' : List (Tag start stop)} {b u : List α} (h : Sheds tags b u) (hpre : tags <+: tags') :
    Sheds tags' b u := by
  induction h with
  | nil => exact .nil _
  | keep c _ ih => exact .keep c (ih hpre)
  | drop turn inside _ _ ih => exact .drop (turn.trans hpre) inside (ih hpre)

theorem Sheds.append {b u b' u' : List α} (h : Sheds tags b u) (h' : Sheds tags b' u') :
    Sheds tags (b ++ b') (u ++ u') := by
  induction h with
  | nil => exact h'
  | keep c _ ih => exact .keep c (ih h')
  | drop turn inside _ _ ih =>
      rw [List.cons_append, List.append_assoc, List.cons_append]
      exact .drop turn inside (ih h')

theorem Sheds.split {b u u' : List α} (h : Sheds tags b (u ++ u')) :
    ∃ x y, b = x ++ y ∧ Sheds tags x u ∧ Sheds tags y u' := by
  generalize hv : u ++ u' = v at h
  induction h generalizing u with
  | nil tags =>
      obtain ⟨rfl, rfl⟩ := List.append_eq_nil_iff.mp hv
      exact ⟨[], [], rfl, .nil _, .nil _⟩
  | @keep c tags b v rest ih =>
      cases u with
      | nil =>
          rw [List.nil_append] at hv
          exact ⟨[], c :: b, rfl, .nil _, hv ▸ .keep c rest⟩
      | cons a u =>
          obtain ⟨rfl, hrest⟩ := List.cons.inj hv
          obtain ⟨x, y, rfl, hx, hy⟩ := ih hrest
          exact ⟨a :: x, y, rfl, .keep a hx, hy⟩
  | @drop tags before t b r v turn inside rest _ ih =>
      obtain ⟨x, y, rfl, hx, hy⟩ := ih hv
      exact ⟨start :: (b ++ stop :: x), y, by simp, .drop turn inside hx, hy⟩

theorem Sheds.uncons {b u : List α} {c : α} (h : Sheds tags b (c :: u)) :
    ∃ x y, b = x ++ c :: y ∧ Sheds tags x [] ∧ Sheds tags y u := by
  generalize hv : c :: u = v at h
  induction h with
  | nil => cases hv
  | @keep a tags b v rest _ =>
      obtain ⟨rfl, rfl⟩ := List.cons.inj hv
      exact ⟨[], b, rfl, .nil _, rest⟩
  | @drop tags before t b r v turn inside rest _ ih =>
      obtain ⟨x, y, rfl, hx, hy⟩ := ih hv
      exact ⟨start :: (b ++ stop :: x), y, by simp, .drop turn inside hx, hy⟩

variable [DecidableEq α]

/-! ## Taking a pattern out -/

/-- `text` without `pat` from left to right; `skip` elements of an occurrence are still to go. -/
def withoutFrom (pat : List α) : ℕ → List α → List α
  | _, [] => []
  | skip + 1, _ :: text => withoutFrom pat skip text
  | 0, a :: text =>
      if pat.isPrefixOf (a :: text) then withoutFrom pat (pat.length - 1) text
      else a :: withoutFrom pat 0 text

def without (pat text : List α) : List α := withoutFrom pat 0 text

/-- What stands before the first `pat`, and what stands behind it. -/
def cut (pat : List α) : List α → Option (List α × List α)
  | [] => if pat = [] then some ([], []) else none
  | a :: text =>
      if pat.isPrefixOf (a :: text) then some ([], (a :: text).drop pat.length)
      else (cut pat text).map (fun (x, y) => (a :: x, y))

/-- What stands before the last `pat`, and what stands behind it. -/
def cutLast (pat : List α) : List α → Option (List α × List α)
  | [] => if pat = [] then some ([], []) else none
  | a :: text =>
      match cutLast pat text with
      | some (x, y) => some (a :: x, y)
      | none => if pat.isPrefixOf (a :: text) then some ([], (a :: text).drop pat.length) else none

variable {text x y : List α}

section Pattern
variable {pat : List α}

theorem withoutFrom_skip (n : ℕ) (text : List α) : withoutFrom pat n text = without pat (text.drop n) := by
  induction text generalizing n with
  | nil => simp [withoutFrom, without]
  | cons a text ih =>
      cases n with
      | zero => rfl
      | succ n =>
          rw [withoutFrom, ih]
          rfl

@[simp] theorem without_nil : without pat [] = [] := rfl

theorem without_pat (hpat : pat ≠ []) (text : List α) : without pat (pat ++ text) = without pat text := by
  obtain ⟨a, rest, rfl⟩ := List.exists_cons_of_ne_nil hpat
  rw [without, List.cons_append, withoutFrom, if_pos, withoutFrom_skip]
  · simp
  · rw [List.isPrefixOf_iff_prefix, ← List.cons_append]
    exact List.prefix_append _ _

theorem without_cons {a : α} {text : List α} (h : ¬pat <+: a :: text) :
    without pat (a :: text) = a :: without pat text := by
  rw [without, withoutFrom, if_neg]
  · rfl
  · rwa [List.isPrefixOf_iff_prefix]

/-- A text is read by taking the pattern off its front, or else one element. -/
theorem scan_induction {P : List α → Prop} (hpat : pat ≠ []) (nil : P [])
    (gone : ∀ text, P text → P (pat ++ text))
    (kept : ∀ a text, ¬pat <+: a :: text → P text → P (a :: text)) (text : List α) : P text := by
  induction hn : text.length using Nat.strong_induction_on generalizing text with
  | _ n ih =>
      cases text with
      | nil => exact nil
      | cons a text =>
          by_cases h : pat <+: a :: text
          · obtain ⟨rest, hrest⟩ := h
            have hlen : 0 < pat.length := List.length_pos_iff.mpr hpat
            have hcount := congrArg List.length hrest
            rw [List.length_append] at hcount
            rw [← hrest]
            exact gone rest (ih rest.length (by omega) rest rfl)
          · exact kept a text h (ih text.length (by rw [← hn, List.length_cons]; omega) text rfl)

/-- An element that is left was there, with what is left of both sides around it. -/
theorem without_eq_append (hpat : pat ≠ []) {text x' y' : List α} {c : α}
    (h : without pat text = x' ++ c :: y') :
    ∃ x y, text = x ++ c :: y ∧ without pat x = x' ∧ without pat y = y' ∧ ¬pat <+: c :: y := by
  induction text using scan_induction hpat generalizing x' with
  | nil => simp at h
  | gone text ih =>
      rw [without_pat hpat] at h
      obtain ⟨x, y, rfl, hx, hy, hc⟩ := ih h
      exact ⟨pat ++ x, y, by simp, by rw [without_pat hpat, hx], hy, hc⟩
  | kept a text ha ih =>
      rw [without_cons ha] at h
      cases x' with
      | nil =>
          obtain ⟨rfl, hrest⟩ := List.cons.inj h
          exact ⟨[], text, rfl, rfl, hrest, ha⟩
      | cons b x' =>
          obtain ⟨rfl, hrest⟩ := List.cons.inj h
          obtain ⟨x, y, rfl, hx, hy, hc⟩ := ih hrest
          refine ⟨a :: x, y, rfl, ?_, hy, hc⟩
          rw [without_cons, hx]
          intro hp
          exact ha (hp.trans (List.prefix_append (a :: x) (c :: y)))

theorem without_of_absent {text : List α} (h : ¬pat <:+: text) : without pat text = text := by
  induction text with
  | nil => rfl
  | cons a text ih =>
      rw [without_cons, ih]
      · intro ht
        exact h (ht.trans (List.suffix_cons a text).isInfix)
      · intro ha
        exact h ha.isInfix

theorem cut_eq_none (hpat : pat ≠ []) {text : List α} : cut pat text = none ↔ ¬pat <:+: text := by
  induction text with
  | nil => simp [cut, hpat]
  | cons a text ih =>
      rw [cut]
      split
      · rename_i h
        rw [List.isPrefixOf_iff_prefix] at h
        simpa using h.isInfix
      · rename_i h
        rw [List.isPrefixOf_iff_prefix] at h
        rw [Option.map_eq_none_iff, ih, List.infix_cons_iff]
        simp [h]

theorem cutLast_eq_none (hpat : pat ≠ []) {text : List α} : cutLast pat text = none ↔ ¬pat <:+: text := by
  induction text with
  | nil => simp [cutLast, hpat]
  | cons a text ih =>
      rw [cutLast, List.infix_cons_iff]
      cases hlast : cutLast pat text with
      | some parts =>
          have hin : pat <:+: text := by
            by_contra hnone
            rw [ih.mpr hnone] at hlast
            cases hlast
          simp [hin]
      | none => simp [ih.mp hlast, List.isPrefixOf_iff_prefix]

theorem append_of_cut (h : cut pat text = some (x, y)) : text = x ++ (pat ++ y) := by
  induction text generalizing x with
  | nil =>
      rw [cut] at h
      split at h
      · cases h
        simp_all
      · cases h
  | cons a text ih =>
      rw [cut] at h
      split at h
      · rename_i hp
        rw [List.isPrefixOf_iff_prefix] at hp
        cases h
        exact (List.prefix_iff_eq_append.mp hp).symm
      · obtain ⟨⟨x, y⟩, hcut, heq⟩ := Option.map_eq_some_iff.mp h
        cases heq
        rw [List.cons_append, ← ih hcut]

/-- `pat` stands between `x` and `y`, and nowhere before. -/
def Foremost (pat x y : List α) : Prop :=
  ∀ x' y', x ++ (pat ++ y) = x' ++ (pat ++ y') → x.length ≤ x'.length

theorem foremost_of_cut (h : cut pat text = some (x, y)) : Foremost pat x y := by
  intro x' y' heq
  rw [← append_of_cut h] at heq
  induction text generalizing x x' with
  | nil =>
      rw [cut] at h
      split at h
      · cases h
        exact Nat.zero_le _
      · cases h
  | cons a text ih =>
      rw [cut] at h
      split at h
      · cases h
        exact Nat.zero_le _
      · rename_i hp
        obtain ⟨⟨x, y⟩, hcut, hxy⟩ := Option.map_eq_some_iff.mp h
        cases hxy
        cases x' with
        | nil =>
            rw [List.isPrefixOf_iff_prefix, heq] at hp
            exact absurd (List.prefix_append _ _) hp
        | cons b x' =>
            obtain ⟨-, htext⟩ := List.cons.inj heq
            exact Nat.succ_le_succ (ih hcut x' htext)

theorem cut_of_foremost (hpat : pat ≠ []) {x y : List α} (h : Foremost pat x y) :
    cut pat (x ++ (pat ++ y)) = some (x, y) := by
  cases hcut : cut pat (x ++ (pat ++ y)) with
  | none => exact absurd ⟨x, y, List.append_assoc x pat y⟩ ((cut_eq_none hpat).mp hcut)
  | some parts =>
      obtain ⟨x', y'⟩ := parts
      have heq := append_of_cut hcut
      have hle := h x' y' heq
      rw [heq] at hcut
      have hge := foremost_of_cut hcut x y heq.symm
      obtain ⟨rfl, hbehind⟩ := List.append_inj heq (Nat.le_antisymm hle hge)
      rw [List.append_cancel_left hbehind]

theorem append_of_cutLast (h : cutLast pat text = some (x, y)) : text = x ++ (pat ++ y) := by
  induction text generalizing x with
  | nil =>
      rw [cutLast] at h
      split at h
      · cases h
        simp_all
      · cases h
  | cons a text ih =>
      rw [cutLast] at h
      cases hlast : cutLast pat text with
      | some parts =>
          rw [hlast] at h
          cases h
          rw [List.cons_append, ← ih hlast]
      | none =>
          rw [hlast] at h
          simp only at h
          split at h
          · rename_i hp
            rw [List.isPrefixOf_iff_prefix] at hp
            cases h
            exact (List.prefix_iff_eq_append.mp hp).symm
          · cases h

end Pattern

/-! ## Taking tags out -/

/-- The tags are taken out one after another. -/
def passes (tags : List (Tag start stop)) (text : List α) : List α :=
  tags.foldl (fun text t => without t.text text) text

/-- No `stop` stands before its `start`, and none is missing. -/
structure Balanced (start stop : α) (text : List α) : Prop where
  ahead : ∀ x, x <+: text → x.count stop ≤ x.count start
  level : text.count stop = text.count start

variable {b : List α}

section Distinct
variable (hne : start ≠ stop)
include hne

theorem Tag.count_start (t : Tag start stop) : t.text.count start = 1 := by
  simp [Tag.text, List.count_eq_zero_of_not_mem t.no_start, hne.symm]

theorem Tag.count_stop (t : Tag start stop) : t.text.count stop = 1 := by
  simp [Tag.text, List.count_eq_zero_of_not_mem t.no_stop, hne]

/-- No tag reaches over a `start`. -/
theorem without_append_start (t : Tag start stop) (x y : List α) :
    without t.text (x ++ start :: y) = without t.text x ++ without t.text (start :: y) := by
  induction x using scan_induction t.text_ne_nil with
  | nil => rfl
  | gone x ih => rw [List.append_assoc, without_pat t.text_ne_nil, ih, without_pat t.text_ne_nil]
  | kept a x ha ih =>
      rw [List.cons_append, without_cons, ih, without_cons ha, List.cons_append]
      intro hp
      exact ha (Tag.prefix_of_append hne hp)

/-- Nor over a `stop`, unless it is its own. -/
theorem without_append_stop {x : List α} (hx : ¬start :: t.name <:+ x) (y : List α) :
    without t.text (x ++ stop :: y) = without t.text x ++ stop :: without t.text y := by
  induction x using scan_induction t.text_ne_nil with
  | nil =>
      rw [List.nil_append, without_cons (Tag.not_prefix hne.symm)]
      rfl
  | gone x ih =>
      rw [List.append_assoc, without_pat t.text_ne_nil, without_pat t.text_ne_nil, ih]
      intro hs
      exact hx (hs.trans (List.suffix_append _ _))
  | kept a x ha ih =>
      rw [List.cons_append, without_cons, ih, without_cons ha, List.cons_append]
      · intro hs
        exact hx (hs.trans (List.suffix_cons a x))
      · intro hp
        have hfront : start :: t.name <+: a :: x := by
          refine prefix_of_append_cons ?_ ((List.prefix_append (start :: t.name) [stop]).trans hp)
          simp [t.no_stop, hne.symm]
        obtain ⟨r, hr⟩ := hfront
        rw [← List.cons_append, ← hr, List.append_assoc, Tag.text, ← List.cons_append,
          List.prefix_append_right_inj] at hp
        cases r with
        | nil => exact hx (by rw [← hr, List.append_nil])
        | cons b r =>
            obtain ⟨rfl, -⟩ := List.cons_prefix_cons.mp hp
            refine ha ⟨r, ?_⟩
            rw [← hr]
            simp [Tag.text]

theorem Balanced.not_prefix (hb : Balanced start stop b) (hname : b ≠ t.name)
    (y : List α) : ¬t.text <+: start :: (b ++ stop :: y) := by
  intro hp
  have hrest := (List.cons_prefix_cons.mp hp).2
  obtain ⟨r, rfl⟩ := prefix_of_append_cons t.no_stop ((List.prefix_append t.name [stop]).trans hrest)
  rw [List.append_assoc, List.prefix_append_right_inj] at hrest
  cases r with
  | nil => exact hname (List.append_nil _)
  | cons c r =>
      obtain ⟨rfl, -⟩ := List.cons_prefix_cons.mp hrest
      have hcount := hb.ahead (t.name ++ [stop]) ⟨r, by simp⟩
      simp [List.count_eq_zero_of_not_mem t.no_start, hne.symm] at hcount

theorem Balanced.not_suffix (hb : Balanced start stop b) :
    ¬start :: t.name <:+ b := by
  rintro ⟨x, rfl⟩
  have hahead := hb.ahead x (List.prefix_append _ _)
  have hlevel := hb.level
  simp [List.count_eq_zero_of_not_mem t.no_start, List.count_eq_zero_of_not_mem t.no_stop, hne] at hlevel
  omega

/-- A balanced stretch between `start` and `stop` that is not the tag stays between them. -/
theorem without_between (hb : Balanced start stop b) (hname : b ≠ t.name)
    (x y : List α) :
    without t.text (x ++ start :: (b ++ stop :: y)) =
      without t.text x ++ start :: (without t.text b ++ stop :: without t.text y) := by
  rw [without_append_start hne, without_cons (hb.not_prefix hne hname y),
    without_append_stop hne (hb.not_suffix hne)]

/-- The first of a tag is the one with none before it. -/
theorem cut_eq_some :
    cut t.text text = some (x, y) ↔ text = x ++ (t.text ++ y) ∧ ¬t.text <:+: x := by
  constructor
  · intro h
    refine ⟨append_of_cut h, ?_⟩
    induction text generalizing x with
    | nil => simp [cut, t.text_ne_nil] at h
    | cons a text ih =>
        rw [cut] at h
        split at h
        · cases h
          simp [t.text_ne_nil]
        · rename_i hp
          obtain ⟨⟨x, y⟩, hcut, heq⟩ := Option.map_eq_some_iff.mp h
          cases heq
          rw [List.isPrefixOf_iff_prefix, append_of_cut hcut] at hp
          rw [List.infix_cons_iff, not_or]
          exact ⟨fun hx => hp (hx.trans (List.prefix_append (a :: x) _)), ih hcut⟩
  · rintro ⟨rfl, h⟩
    induction x with
    | nil =>
        rw [List.nil_append, Tag.text, List.cons_append, cut, ← List.cons_append, if_pos]
        · simp
        · rw [List.isPrefixOf_iff_prefix]
          exact List.prefix_append _ _
    | cons a x ih =>
        rw [List.infix_cons_iff, not_or] at h
        rw [List.cons_append, cut, if_neg, ih h.2]
        · rfl
        · rw [List.isPrefixOf_iff_prefix]
          intro hp
          exact h.1 (Tag.prefix_of_append hne hp)

/-- The last one is the one with none behind it. -/
theorem cutLast_eq_some :
    cutLast t.text text = some (x, y) ↔ text = x ++ (t.text ++ y) ∧ ¬t.text <:+: y := by
  constructor
  · intro h
    refine ⟨append_of_cutLast h, ?_⟩
    induction text generalizing x with
    | nil => simp [cutLast, t.text_ne_nil] at h
    | cons a text ih =>
        rw [cutLast] at h
        cases hlast : cutLast t.text text with
        | some parts =>
            rw [hlast] at h
            cases h
            exact ih hlast
        | none =>
            rw [hlast] at h
            simp only at h
            split at h
            · cases h
              intro hin
              refine (cutLast_eq_none t.text_ne_nil).mp hlast (hin.trans ?_)
              rw [Tag.text, List.length_cons, List.drop_succ_cons]
              exact (List.drop_suffix _ _).isInfix
            · cases h
  · rintro ⟨rfl, h⟩
    induction x with
    | nil =>
        have hnone : cutLast t.text (t.name ++ [stop] ++ y) = none := by
          rw [cutLast_eq_none t.text_ne_nil]
          rintro ⟨p, q, hpq⟩
          have hname : t.name ++ [stop] <+: p := by
            have hbody : start ∉ t.name ++ [stop] := by simp [t.no_start, hne]
            have hpre : t.name ++ [stop] <+: p ++ start :: (t.name ++ [stop] ++ q) := by
              refine ⟨y, ?_⟩
              rw [← hpq, Tag.text, List.append_assoc, List.cons_append]
            exact prefix_of_append_cons hbody hpre
          obtain ⟨p, rfl⟩ := hname
          rw [List.append_assoc, List.append_assoc, List.append_cancel_left_eq] at hpq
          exact h ⟨p, q, by rw [← hpq, List.append_assoc]⟩
        rw [List.nil_append, Tag.text, List.cons_append, cutLast, ← Tag.text, hnone]
        simp only
        rw [← List.cons_append, ← Tag.text, if_pos]
        · simp
        · rw [List.isPrefixOf_iff_prefix]
          exact List.prefix_append _ _
    | cons a x ih => rw [List.cons_append, cutLast, ih]

theorem count_without (t : Tag start stop) (text : List α) :
    ∃ n, text.count start = (without t.text text).count start + n ∧
      text.count stop = (without t.text text).count stop + n := by
  induction text using scan_induction t.text_ne_nil with
  | nil => exact ⟨0, rfl, rfl⟩
  | gone text ih =>
      obtain ⟨n, hstart, hstop⟩ := ih
      refine ⟨n + 1, ?_, ?_⟩
      · rw [List.count_append, t.count_start hne, without_pat t.text_ne_nil]
        omega
      · rw [List.count_append, t.count_stop hne, without_pat t.text_ne_nil]
        omega
  | kept a text ha ih =>
      obtain ⟨n, hstart, hstop⟩ := ih
      refine ⟨n, ?_, ?_⟩
      · rw [without_cons ha, List.count_cons, List.count_cons]
        omega
      · rw [without_cons ha, List.count_cons, List.count_cons]
        omega

theorem Balanced.without (hb : Balanced start stop b) (t : Tag start stop) :
    Balanced start stop (without t.text b) := by
  constructor
  · rintro x' ⟨y', hy⟩
    have hx : ∃ x, x <+: b ∧ Tags.without t.text x = x' := by
      cases y' with
      | nil => exact ⟨b, List.prefix_rfl, by rw [← hy, List.append_nil]⟩
      | cons c y' =>
          obtain ⟨x, y, rfl, hx, -⟩ := without_eq_append t.text_ne_nil hy.symm
          exact ⟨x, List.prefix_append _ _, hx⟩
    obtain ⟨x, hpre, rfl⟩ := hx
    obtain ⟨n, hstart, hstop⟩ := count_without hne t x
    have hahead := hb.ahead x hpre
    omega
  · obtain ⟨n, hstart, hstop⟩ := count_without hne t b
    have hlevel := hb.level
    omega

end Distinct

/-! ## What the passes leave -/

theorem passes_append (more : List (Tag start stop)) (text : List α) :
    passes (tags ++ more) text = passes more (passes tags text) := List.foldl_append

theorem passes_concat (t : Tag start stop) (text : List α) :
    passes (tags ++ [t]) text = without t.text (passes tags text) := passes_append [t] text

theorem Sheds.without {b u : List α} (h : Sheds tags b u) :
    Sheds (tags ++ [t]) b (without t.text u) := by
  have hmono : tags <+: tags ++ [t] := List.prefix_append _ _
  induction u using scan_induction t.text_ne_nil generalizing b with
  | nil => exact h.mono hmono
  | gone u ih =>
      obtain ⟨tagged, y, rfl, htagged, hy⟩ := h.split
      obtain ⟨x, opened, rfl, hx, hopened⟩ := htagged.uncons
      obtain ⟨b, closing, rfl, hb, hclosing⟩ := hopened.split
      obtain ⟨b', w, rfl, hb', hw⟩ := hclosing.uncons
      have hinside : Sheds tags (b ++ b') t.name := by simpa using hb.append hb'
      have hbehind := (hw.mono hmono).append (ih hy)
      have hall := (hx.mono hmono).append (.drop List.prefix_rfl hinside hbehind)
      rw [without_pat t.text_ne_nil]
      simpa using hall
  | kept c u hc ih =>
      obtain ⟨x, y, rfl, hx, hy⟩ := h.uncons
      rw [without_cons hc]
      exact (hx.mono hmono).append (.keep c (ih hy))

theorem sheds_passes (tags : List (Tag start stop)) (text : List α) : Sheds tags text (passes tags text) := by
  induction tags using List.reverseRecOn with
  | nil => exact .refl text
  | append_singleton tags t ih =>
      rw [passes_concat]
      exact ih.without

theorem passes_of_no_start {u : List α} (hu : start ∉ u) : passes tags u = u := by
  induction tags using List.reverseRecOn with
  | nil => rfl
  | append_singleton tags t ih =>
      rw [passes_concat, ih, without_of_absent]
      rintro ⟨x, y, rfl⟩
      simp [Tag.text] at hu

theorem passes_cons {c : α} (hc : c ≠ start) (text : List α) : passes tags (c :: text) = c :: passes tags text := by
  induction tags using List.reverseRecOn with
  | nil => rfl
  | append_singleton tags t ih => rw [passes_concat, ih, without_cons (Tag.not_prefix hc), passes_concat]

/-- A tag that is left was a stretch of the text, and has stayed through every pass. -/
theorem passes_eq_append {text x' b' y' : List α} (h : passes tags text = x' ++ start :: (b' ++ stop :: y')) :
    ∃ x b y, text = x ++ start :: (b ++ stop :: y) ∧ passes tags x = x' ∧ passes tags b = b' ∧
      passes tags y = y' ∧ ∀ before t, before ++ [t] <+: tags → passes before b ≠ t.name := by
  induction tags using List.reverseRecOn generalizing x' b' y' with
  | nil =>
      refine ⟨x', b', y', h, rfl, rfl, rfl, ?_⟩
      intro before t hpre
      simp at hpre
  | append_singleton tags t ih =>
      rw [passes_concat] at h
      obtain ⟨x, z, hxz, rfl, hz, hkept⟩ := without_eq_append t.text_ne_nil h
      obtain ⟨b, y, rfl, rfl, rfl, -⟩ := without_eq_append t.text_ne_nil hz
      obtain ⟨x, b, y, rfl, rfl, rfl, rfl, hstay⟩ := ih hxz
      refine ⟨x, b, y, rfl, passes_concat t x, passes_concat t b, passes_concat t y, ?_⟩
      intro before t' hpre
      rcases List.prefix_concat_iff.mp hpre with heq | hpre
      · obtain ⟨rfl, rfl⟩ := List.append_singleton_inj.mp heq
        intro hname
        refine hkept ⟨passes before y, ?_⟩
        rw [hname]
        simp [Tag.text]
      · exact hstay before t' hpre

section Distinct
variable (hne : start ≠ stop)
include hne

theorem Balanced.passes (hb : Balanced start stop b) : Balanced start stop (passes tags b) := by
  induction tags using List.reverseRecOn with
  | nil => exact hb
  | append_singleton tags t ih =>
      rw [passes_concat]
      exact ih.without hne t

/-- A balanced stretch that never comes down to a tag in time keeps its `start` and its `stop`. -/
theorem passes_between (hb : Balanced start stop b)
    (hstay : ∀ before t, before ++ [t] <+: tags → passes before b ≠ t.name) (x y : List α) :
    passes tags (x ++ start :: (b ++ stop :: y)) =
      passes tags x ++ start :: (passes tags b ++ stop :: passes tags y) := by
  induction tags using List.reverseRecOn with
  | nil => rfl
  | append_singleton tags t ih =>
      have hstays := ih (fun before t' hpre => hstay before t' (hpre.trans (List.prefix_append _ _)))
      rw [passes_concat, hstays, without_between hne (hb.passes hne) (hstay tags t List.prefix_rfl)]
      simp only [passes_concat]

/-- One that does is gone. -/
theorem passes_gone {before : List (Tag start stop)} (hb : Balanced start stop b)
    (turn : before ++ [t] <+: tags) (hname : passes before b = t.name) (r : List α) :
    passes tags (start :: (b ++ stop :: r)) = passes tags r := by
  induction tags using List.reverseRecOn generalizing before t with
  | nil => simp at turn
  | append_singleton tags t' ih =>
      rw [passes_concat, passes_concat]
      by_cases hgone : ∃ before t, before ++ [t] <+: tags ∧ passes before b = t.name
      · obtain ⟨before, t, turn, hname⟩ := hgone
        rw [ih turn hname]
      · rcases List.prefix_concat_iff.mp turn with heq | hpre
        · obtain ⟨rfl, rfl⟩ := List.append_singleton_inj.mp heq
          have hstays := passes_between hne hb (fun before' t' hpre h => hgone ⟨before', t', hpre, h⟩) [] r
          rw [List.nil_append] at hstays
          rw [hstays, hname, passes_of_no_start (List.not_mem_nil), List.nil_append]
          have htext : start :: (t.name ++ stop :: passes before r) = t.text ++ passes before r := by
            simp [Tag.text]
          rw [htext, without_pat t.text_ne_nil]
        · exact absurd ⟨before, t, hpre, hname⟩ hgone

theorem Sheds.balanced {b u : List α} (h : Sheds tags b u) (hstart : start ∉ u) (hstop : stop ∉ u) :
    Balanced start stop b := by
  induction h with
  | nil => exact ⟨by simp, rfl⟩
  | @keep c tags b u _ ih =>
      have hb := ih (List.not_mem_of_not_mem_cons hstart) (List.not_mem_of_not_mem_cons hstop)
      have hc : c ≠ start := fun h => hstart (h ▸ List.mem_cons_self)
      have hc' : c ≠ stop := fun h => hstop (h ▸ List.mem_cons_self)
      constructor
      · intro x hx
        cases x with
        | nil => simp
        | cons a x =>
            obtain ⟨rfl, hpre⟩ := List.cons_prefix_cons.mp hx
            rw [List.count_cons_of_ne hc, List.count_cons_of_ne hc']
            exact hb.ahead x hpre
      · rw [List.count_cons_of_ne hc, List.count_cons_of_ne hc']
        exact hb.level
  | @drop tags before t b r u _ _ _ ihb ihr =>
      have hb := ihb t.no_start t.no_stop
      have hr := ihr hstart hstop
      constructor
      · intro x hx
        cases x with
        | nil => simp
        | cons a x =>
            obtain ⟨rfl, hpre⟩ := List.cons_prefix_cons.mp hx
            rw [List.count_cons_self, List.count_cons_of_ne hne]
            rcases List.prefix_or_prefix_of_prefix hpre (List.prefix_append b (stop :: r)) with hin | ⟨z, rfl⟩
            · have hahead := hb.ahead x hin
              omega
            · rw [List.prefix_append_right_inj] at hpre
              have hlevel := hb.level
              cases z with
              | nil => simp; omega
              | cons c z =>
                  obtain ⟨rfl, hz⟩ := List.cons_prefix_cons.mp hpre
                  have hahead := hr.ahead z hz
                  rw [List.count_append, List.count_append, List.count_cons_self, List.count_cons_of_ne hne.symm]
                  omega
      · have hlevel := hb.level
        have hlevel' := hr.level
        simp [hne, hne.symm]
        omega

/-- What a text comes down to, where no `start` and no `stop` is left in it, the passes leave. -/
theorem Sheds.passes_eq {b u : List α} (h : Sheds tags b u) (hstart : start ∉ u) (hstop : stop ∉ u) :
    passes tags b = u := by
  induction h with
  | nil => exact passes_of_no_start List.not_mem_nil
  | @keep c tags b u _ ih =>
      have hc : c ≠ start := fun h => hstart (h ▸ List.mem_cons_self)
      rw [passes_cons hc, ih (List.not_mem_of_not_mem_cons hstart) (List.not_mem_of_not_mem_cons hstop)]
  | @drop tags before t b r u turn inside _ ihb ihr =>
      have hb := inside.balanced hne t.no_start t.no_stop
      rw [passes_gone hne hb turn (ihb t.no_start t.no_stop), ihr hstart hstop]

theorem passes_eq_iff {b u : List α} (hstart : start ∉ u) (hstop : stop ∉ u) :
    passes tags b = u ↔ Sheds tags b u := by
  constructor
  · rintro rfl
    exact sheds_passes tags b
  · intro h
    exact h.passes_eq hne hstart hstop

/-! ## Which tags are left -/

theorem late_of_passes {d : Tag start stop} {text x' y' : List α} (h : passes tags text = x' ++ (d.text ++ y')) :
    ∃ x b y, text = x ++ start :: (b ++ stop :: y) ∧ Late tags d b ∧ passes tags x = x' ∧ passes tags y = y' := by
  rw [Tag.text, List.cons_append, List.append_assoc, List.singleton_append] at h
  obtain ⟨x, b, y, rfl, hx, hb, hy, hstay⟩ := passes_eq_append h
  refine ⟨x, b, y, rfl, ⟨(passes_eq_iff hne d.no_start d.no_stop).mp hb, ?_⟩, hx, hy⟩
  intro before turn hsheds
  exact hstay before d turn (hsheds.passes_eq hne d.no_start d.no_stop)

theorem Late.passes_eq {d : Tag start stop} (h : Late tags d b) (x y : List α) :
    passes tags (x ++ start :: (b ++ stop :: y)) = passes tags x ++ (d.text ++ passes tags y) := by
  obtain ⟨hsheds, hlate⟩ := h
  have hname := hsheds.passes_eq hne d.no_start d.no_stop
  rw [passes_between hne (hsheds.balanced hne d.no_start d.no_stop), hname]
  · simp [Tag.text]
  · intro before t turn ht
    -- what has come down to a name stays there, so the tag could only be `d` itself
    have hstays : passes tags b = t.name := by
      obtain ⟨after, rfl⟩ := turn
      rw [List.append_assoc, passes_append, ht, passes_of_no_start t.no_start]
    obtain rfl : t = d := Tag.ext (hstays.symm.trans hname)
    exact hlate before turn ((passes_eq_iff hne t.no_start t.no_stop).mp ht)

end Distinct

end Elpis.Lib.Tags
