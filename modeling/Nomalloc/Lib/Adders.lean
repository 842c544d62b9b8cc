import Nomalloc.Lib.Runs
import Mathlib.Algebra.BigOperators.Fin
import Mathlib.Data.Fintype.BigOperators
import Mathlib.Tactic

/-!
# Threads that add to shared counters

Threads run lists of instructions, one instruction at a time and in any interleaving; an instruction adds
to some counters, which are kept modulo `w`.  What the counters hold and what the threads still have to
add never changes in sum.

* `Adders.left`         what the threads still have to add to a counter;
* `Adders.left_update`  one thread takes its next instruction;
* `Adders.conserved`    the sum of both along a run;
* `Adders.done`         the counter when all threads are done.
-/

namespace Adders
variable {ι I T σ : Type*} [Fintype T] [DecidableEq T]

/-- What the threads still have to add to the counter `c`. -/
def left (amount : I → ι → ℕ) (todo : T → List I) (c : ι) : ℕ :=
  ∑ t, ((todo t).map fun i => amount i c).sum

variable {amount : I → ι → ℕ} {w : ℕ}

theorem left_update {todo : T → List I} {t : T} {i : I} {rest : List I} (ht : todo t = i :: rest)
    (c : ι) : amount i c + left amount (Function.update todo t rest) c = left amount todo c := by
  unfold left
  rw [← Finset.add_sum_erase _ _ (Finset.mem_univ t), ← Finset.add_sum_erase _ _ (Finset.mem_univ t),
    Function.update_self, ht, List.map_cons, List.sum_cons, Nat.add_assoc]
  congr 2
  refine Finset.sum_congr rfl fun u hu => ?_
  rw [Function.update_of_ne (Finset.ne_of_mem_erase hu)]

/-- One step: the thread has nothing left, or its next instruction adds its amounts. -/
structure Adds (amount : I → ι → ℕ) (w : ℕ) (counter counter' : ι → ℕ) (todo todo' : T → List I)
    (t : T) : Prop where
  idle : todo t = [] → counter' = counter ∧ todo' = todo
  adds : ∀ i rest, todo t = i :: rest →
    todo' = Function.update todo t rest ∧ ∀ c, counter' c % w = (counter c + amount i c) % w

theorem Adds.conserved {counter counter' : ι → ℕ} {todo todo' : T → List I} {t : T}
    (h : Adds amount w counter counter' todo todo' t) (c : ι) :
    (counter' c + left amount todo' c) % w = (counter c + left amount todo c) % w := by
  cases ht : todo t with
  | nil =>
    obtain ⟨hcounter, htodo⟩ := h.idle ht
    rw [hcounter, htodo]
  | cons i rest =>
    obtain ⟨htodo, hcounter⟩ := h.adds i rest ht
    rw [htodo, ← Nat.mod_add_mod, hcounter, Nat.mod_add_mod, Nat.add_assoc, left_update ht]

section
variable {counter : σ → ι → ℕ} {todo : σ → T → List I} {step : σ → T → σ}

theorem conserved (hstep : ∀ s t, Adds amount w (counter s) (counter (step s t)) (todo s)
    (todo (step s t)) t) (s : σ) (schedule : List T) (c : ι) :
    (counter (Runs.after step s schedule) c + left amount (todo (Runs.after step s schedule)) c) % w =
      (counter s c + left amount (todo s) c) % w := by
  induction schedule generalizing s with
  | nil => rfl
  | cons t schedule ih => exact (ih (step s t)).trans ((hstep s t).conserved c)

/-- **Nothing is lost**: when all threads are done the counter has been added all that was to be added,
however they were interleaved. -/
theorem done (hstep : ∀ s t, Adds amount w (counter s) (counter (step s t)) (todo s)
    (todo (step s t)) t) (s : σ) (schedule : List T)
    (hdone : ∀ t, todo (Runs.after step s schedule) t = []) (c : ι) :
    counter (Runs.after step s schedule) c % w = (counter s c + left amount (todo s) c) % w := by
  have h := conserved hstep s schedule c
  have hzero : left amount (todo (Runs.after step s schedule)) c = 0 := by
    unfold left
    refine Finset.sum_eq_zero fun t _ => ?_
    rw [hdone]
    rfl
  rwa [hzero, Nat.add_zero] at h

end

end Adders
