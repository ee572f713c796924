import Mathlib.Tactic

/-!
# Runs of a labelled step function

A system is a state and a function that takes one labelled step. A label the
system cannot take in a state is a stutter there, so a run is a plain fold and
every list of labels is a run. An invariant needs one lemma about a step; the
rules below carry it to every state of every run.
-/

namespace Elpis.Lib

variable {σ ι : Type*} {step : σ → ι → σ}

/-- The state after the steps `is`, from `s`. -/
def run (step : σ → ι → σ) (s : σ) (is : List ι) : σ := is.foldl step s

@[simp] theorem run_nil (s : σ) : run step s [] = s := rfl

@[simp] theorem run_cons (s : σ) (i : ι) (is : List ι) :
    run step s (i :: is) = run step (step s i) is := rfl

theorem run_append (s : σ) (is js : List ι) :
    run step s (is ++ js) = run step (run step s is) js :=
  List.foldl_append

/-- What one step preserves, every run preserves. -/
theorem run_inv {I : σ → Prop} (hstep : ∀ s i, I s → I (step s i)) :
    ∀ {s : σ} (is : List ι), I s → I (run step s is)
  | _, [], hi => hi
  | s, i :: is, hi => run_inv hstep is (hstep s i hi)

/-- What one step may do between two states, a run may do between its ends. -/
theorem run_rel {I : σ → Prop} {R : σ → σ → Prop} (hinv : ∀ s i, I s → I (step s i))
    (hrefl : ∀ s, R s s) (htrans : ∀ {s t u}, R s t → R t u → R s u)
    (hstep : ∀ s i, I s → R s (step s i)) :
    ∀ {s : σ} (is : List ι), I s → R s (run step s is)
  | s, [], _ => hrefl s
  | s, i :: is, hi =>
      htrans (hstep s i hi) (run_rel hinv hrefl htrans hstep is (hinv s i hi))

/-- `P` holds in every state the run from `s` goes through. -/
def Throughout (step : σ → ι → σ) (P : σ → Prop) (s : σ) : List ι → Prop
  | [] => P s
  | i :: is => P s ∧ Throughout step P (step s i) is

theorem Throughout.last {P : σ → Prop} {s : σ} {is : List ι} (h : Throughout step P s is) :
    P (run step s is) := by
  induction is generalizing s with
  | nil => exact h
  | cons i is ih => exact ih h.2

/-- What every step keeps holds throughout every run. -/
theorem throughout_of_inv {I P : σ → Prop} (hP : ∀ s, I s → P s) (hstep : ∀ s i, I s → I (step s i)) :
    ∀ {s : σ} (is : List ι), I s → Throughout step P s is
  | s, [], hI => hP s hI
  | s, i :: is, hI => ⟨hP s hI, throughout_of_inv hP hstep is (hstep s i hI)⟩

/-- Every step of the run is one that `ok` allows where it is taken. -/
def EachStep (step : σ → ι → σ) (ok : σ → ι → Prop) (s : σ) : List ι → Prop
  | [] => True
  | i :: is => ok s i ∧ EachStep step ok (step s i) is

instance EachStep.decidable {ok : σ → ι → Prop} [∀ s i, Decidable (ok s i)] :
    (s : σ) → (is : List ι) → Decidable (EachStep step ok s is)
  | _, [] => isTrue trivial
  | s, i :: is =>
      have : Decidable (EachStep step ok (step s i) is) := EachStep.decidable (step s i) is
      inferInstanceAs (Decidable (ok s i ∧ EachStep step ok (step s i) is))

theorem EachStep.and {ok ok' : σ → ι → Prop} {s : σ} {is : List ι} (h : EachStep step ok s is)
    (h' : EachStep step ok' s is) : EachStep step (fun s i => ok s i ∧ ok' s i) s is := by
  induction is generalizing s with
  | nil => trivial
  | cons i is ih => exact ⟨⟨h.1, h'.1⟩, ih h.2 h'.2⟩

theorem EachStep.last {ok : σ → ι → Prop} {s : σ} {is : List ι} {i : ι}
    (h : EachStep step ok s (is ++ [i])) : ok (run step s is) i := by
  induction is generalizing s with
  | nil => exact h.1
  | cons j is ih => exact ih h.2

theorem EachStep.append_iff {ok : σ → ι → Prop} {s : σ} {is js : List ι} :
    EachStep step ok s (is ++ js) ↔ EachStep step ok s is ∧ EachStep step ok (run step s is) js := by
  induction is generalizing s with
  | nil => exact ⟨fun h => ⟨trivial, h⟩, fun h => h.2⟩
  | cons i is ih => exact (and_congr_right' ih).trans and_assoc.symm

/-- An invariant that the allowed steps keep holds throughout a run of them. -/
theorem throughout_of_eachStep {I P : σ → Prop} {ok : σ → ι → Prop} (hP : ∀ s, I s → P s)
    (hok : ∀ s i, I s → ok s i → I (step s i)) :
    ∀ {s : σ} (is : List ι), I s → EachStep step ok s is → Throughout step P s is
  | s, [], hI, _ => hP s hI
  | s, i :: is, hI, ⟨h, hrest⟩ =>
      ⟨hP s hI, throughout_of_eachStep hP hok is (hok s i hI h) hrest⟩

/-- Two conditions on steps that say the same where the invariant holds, and one of them
keeps the invariant. -/
theorem eachStep_iff {I : σ → Prop} {ok ok' : σ → ι → Prop}
    (hiff : ∀ s i, I s → (ok s i ↔ ok' s i)) (hkeep : ∀ s i, I s → ok' s i → I (step s i)) :
    ∀ {s : σ} (is : List ι), I s → (EachStep step ok s is ↔ EachStep step ok' s is)
  | _, [], _ => Iff.rfl
  | s, i :: is, hI => by
      have hhead := hiff s i hI
      constructor
      · rintro ⟨h, hrest⟩
        exact ⟨hhead.mp h, (eachStep_iff hiff hkeep is (hkeep s i hI (hhead.mp h))).mp hrest⟩
      · rintro ⟨h, hrest⟩
        exact ⟨hhead.mpr h, (eachStep_iff hiff hkeep is (hkeep s i hI h)).mpr hrest⟩

/-- Where one step keeps `P` exactly if it is allowed, a run keeps `P` throughout exactly
if all its steps are. The invariant is only needed as long as the steps are allowed. -/
theorem throughout_iff {I P : σ → Prop} {ok : σ → ι → Prop} (hP : ∀ s, I s → P s)
    (hok : ∀ s i, I s → ok s i → I (step s i))
    (hbad : ∀ s i, I s → ¬ok s i → ¬P (step s i)) :
    ∀ {s : σ} (is : List ι), I s → (Throughout step P s is ↔ EachStep step ok s is)
  | s, [], hI => ⟨fun _ => trivial, fun _ => hP s hI⟩
  | s, i :: is, hI => by
      by_cases h : ok s i
      · have ih := throughout_iff hP hok hbad is (hok s i hI h)
        exact ⟨fun ht => ⟨h, ih.mp ht.2⟩, fun he => ⟨hP s hI, ih.mpr he.2⟩⟩
      · refine ⟨fun ht => ?_, fun he => absurd he.1 h⟩
        have hfirst : P (step s i) := by
          cases is with
          | nil => exact ht.2
          | cons j js => exact ht.2.1
        exact absurd hfirst (hbad s i hI h)

end Elpis.Lib
