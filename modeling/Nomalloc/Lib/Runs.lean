import Mathlib.Data.List.Basic
import Mathlib.Tactic.TypeStar

/-!
# Runs of a deterministic system

A system is a step function `step : σ → ι → σ`; a run is a start state and a list of inputs.

* `after step s is`      the state after the inputs `is`;
* `Each step P s is`     `P` holds of every step taken (state before the step, input);
* `Always step Q s is`   `Q` holds of every state of the run, the first one included.

`inv_after`, `inv_always` lift an invariant that is kept by every step meeting a condition to
whole runs; `always_iff_each`, `always_iff_each_of` and `each_iff_each_of` are the rules for a
condition that is exact.
-/

namespace Runs

variable {σ ι : Type*} (step : σ → ι → σ)

/-- The state after the inputs `is`, first input first. -/
def after (s : σ) (is : List ι) : σ := is.foldl step s

/-- Every step of the run satisfies `P` (the state before the step and its input). -/
def Each (P : σ → ι → Prop) : σ → List ι → Prop
  | _, [] => True
  | s, i :: is => P s i ∧ Each P (step s i) is

/-- Every state of the run satisfies `Q`. -/
def Always (Q : σ → Prop) : σ → List ι → Prop
  | s, [] => Q s
  | s, i :: is => Q s ∧ Always Q (step s i) is

variable {step}

@[simp] theorem after_nil (s : σ) : after step s [] = s := rfl

@[simp] theorem after_cons (s : σ) (i : ι) (is : List ι) :
    after step s (i :: is) = after step (step s i) is := rfl

theorem after_append (s : σ) (is js : List ι) :
    after step s (is ++ js) = after step (after step s is) js := List.foldl_append

@[simp] theorem each_nil (P : σ → ι → Prop) (s : σ) : Each step P s [] := trivial

@[simp] theorem each_cons (P : σ → ι → Prop) (s : σ) (i : ι) (is : List ι) :
    Each step P s (i :: is) ↔ P s i ∧ Each step P (step s i) is := Iff.rfl

theorem each_append {P : σ → ι → Prop} {s : σ} {is js : List ι} :
    Each step P s (is ++ js) ↔ Each step P s is ∧ Each step P (after step s is) js := by
  induction is generalizing s with
  | nil => exact ⟨fun h => ⟨trivial, h⟩, fun h => h.2⟩
  | cons i is ih =>
    show P s i ∧ Each step P (step s i) (is ++ js) ↔ (P s i ∧ _) ∧ _
    rw [ih, and_assoc]
    exact Iff.rfl

theorem each_concat {P : σ → ι → Prop} {s : σ} {is : List ι} {i : ι} :
    Each step P s (is ++ [i]) ↔ Each step P s is ∧ P (after step s is) i := by
  rw [each_append, each_cons]
  exact and_congr_right' (and_iff_left trivial)

/-- Two conditions that hold of every step hold together of every step. -/
theorem Each.and {P Q : σ → ι → Prop} {s : σ} {is : List ι} (hP : Each step P s is)
    (hQ : Each step Q s is) : Each step (fun s i => P s i ∧ Q s i) s is := by
  induction is generalizing s with
  | nil => trivial
  | cons i is ih => exact ⟨⟨hP.1, hQ.1⟩, ih hP.2 hQ.2⟩

/-- **Run rule.**  An invariant kept by every step that meets `C` holds after a run all of whose
steps meet `C`. -/
theorem inv_after {Inv : σ → Prop} {C : σ → ι → Prop}
    (hstep : ∀ s i, Inv s → C s i → Inv (step s i)) {s : σ} {is : List ι} (hs : Inv s)
    (hC : Each step C s is) : Inv (after step s is) := by
  induction is generalizing s with
  | nil => exact hs
  | cons i is ih => exact ih (hstep s i hs hC.1) hC.2

/-- The run rule for every state on the way. -/
theorem inv_always {Inv : σ → Prop} {C : σ → ι → Prop}
    (hstep : ∀ s i, Inv s → C s i → Inv (step s i)) {s : σ} {is : List ι} (hs : Inv s)
    (hC : Each step C s is) : Always step Inv s is := by
  induction is generalizing s with
  | nil => exact hs
  | cons i is ih => exact ⟨hs, ih (hstep s i hs hC.1) hC.2⟩

theorem Always.last {Q : σ → Prop} {s : σ} {is : List ι} (hQ : Always step Q s is) :
    Q (after step s is) := by
  induction is generalizing s with
  | nil => exact hQ
  | cons i is ih => exact ih hQ.2

theorem Always.mono {Q R : σ → Prop} (h : ∀ s, Q s → R s) {s : σ} {is : List ι}
    (hQ : Always step Q s is) : Always step R s is := by
  induction is generalizing s with
  | nil => exact h s hQ
  | cons i is ih => exact ⟨h s hQ.1, ih hQ.2⟩

/-- **Exact rule.**  Among the runs whose steps meet `A`: where a step keeps the invariant if it
meets `C` and leaves `Q` at once if it does not, `Q` holds all along a run exactly when every step
meets `C`. -/
theorem always_iff_each_of {Inv Q : σ → Prop} {A C : σ → ι → Prop}
    (hstep : ∀ s i, Inv s → A s i → C s i → Inv (step s i)) (hQ : ∀ s, Inv s → Q s)
    (hbad : ∀ s i, Inv s → A s i → ¬ C s i → ¬ Q (step s i)) {s : σ} {is : List ι} (hs : Inv s)
    (hA : Each step A s is) : Always step Q s is ↔ Each step C s is := by
  constructor
  · intro h
    induction is generalizing s with
    | nil => trivial
    | cons i is ih =>
      have hC : C s i := by
        by_contra hC
        have hnext : Q (step s i) := by
          cases is with
          | nil => exact h.2
          | cons _ _ => exact h.2.1
        exact hbad s i hs hA.1 hC hnext
      exact ⟨hC, ih (hstep s i hs hA.1 hC) hA.2 h.2⟩
  · intro h
    exact (inv_always (fun s i hs hAC => hstep s i hs hAC.1 hAC.2) hs (hA.and h)).mono hQ

/-- What every step does that meets `A` in a state the invariant allows. -/
theorem each_of_inv {Inv : σ → Prop} {A P : σ → ι → Prop}
    (hstep : ∀ s i, Inv s → A s i → Inv (step s i)) (hP : ∀ s i, Inv s → A s i → P s i) {s : σ}
    {is : List ι} (hs : Inv s) (hA : Each step A s is) : Each step P s is := by
  induction is generalizing s with
  | nil => trivial
  | cons i is ih => exact ⟨hP s i hs hA.1, ih (hstep s i hs hA.1) hA.2⟩

theorem each_of_forall {P : σ → ι → Prop} (h : ∀ s i, P s i) (s : σ) (is : List ι) :
    Each step P s is := by
  induction is generalizing s with
  | nil => trivial
  | cons i is ih => exact ⟨h s i, ih _⟩

/-- A condition on the inputs alone. -/
theorem each_iff_forall {P : ι → Prop} {s : σ} {is : List ι} :
    Each step (fun _ i => P i) s is ↔ ∀ i ∈ is, P i := by
  induction is generalizing s with
  | nil => exact ⟨fun _ i hi => absurd hi List.not_mem_nil, fun _ => trivial⟩
  | cons i is ih => rw [each_cons, ih, List.forall_mem_cons]

/-- Where two conditions agree in every state that the invariant allows, they hold of the same
runs. -/
theorem each_iff_each_of {Inv : σ → Prop} {A P C : σ → ι → Prop}
    (hstep : ∀ s i, Inv s → A s i → Inv (step s i)) (hiff : ∀ s i, Inv s → A s i → (P s i ↔ C s i))
    {s : σ} {is : List ι} (hs : Inv s) (hA : Each step A s is) :
    Each step P s is ↔ Each step C s is := by
  induction is generalizing s with
  | nil => exact Iff.rfl
  | cons i is ih =>
    rw [each_cons, each_cons, hiff s i hs hA.1, ih (hstep s i hs hA.1) hA.2]

/-- The exact rule over all runs. -/
theorem always_iff_each {Inv Q : σ → Prop} {C : σ → ι → Prop}
    (hstep : ∀ s i, Inv s → C s i → Inv (step s i)) (hQ : ∀ s, Inv s → Q s)
    (hbad : ∀ s i, Inv s → ¬ C s i → ¬ Q (step s i)) {s : σ} {is : List ι} (hs : Inv s) :
    Always step Q s is ↔ Each step C s is :=
  always_iff_each_of (fun s i h _ => hstep s i h) hQ (fun s i h _ => hbad s i h) hs
    (each_of_forall (fun _ _ => trivial) s is)

end Runs
