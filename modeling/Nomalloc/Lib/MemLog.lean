import Mathlib.Data.List.Basic
import Mathlib.Data.List.Nodup

/-!
# A log of accesses to blocks of memory

A program that owns blocks of memory reads and writes them and frees them.  Its log says, in order,
which block was accessed and which was freed.

* `freed log`            the blocks that were freed, in order;
* `NoUseAfterFree log`   no block is accessed after it was freed;
* `noUseAfterFree_accesses`, `noUseAfterFree_free`, `noUseAfterFree_append_frees`,
  `not_noUseAfterFree`   how a longer log does.
-/

/-- An entry of the log. -/
inductive MemEvent (ι : Type*) where
  | access (p : ι)
  | free (p : ι)
deriving DecidableEq

namespace MemEvent

variable {ι : Type*}

/-- The blocks `ps` are accessed. -/
def accesses (ps : List ι) : List (MemEvent ι) := ps.map .access

/-- The blocks `ps` are freed. -/
def frees (ps : List ι) : List (MemEvent ι) := ps.map .free

/-- The block that is freed. -/
def freed? : MemEvent ι → Option ι
  | .access _ => none
  | .free p => some p

/-- The blocks that are freed. -/
def freed (log : List (MemEvent ι)) : List ι := log.filterMap freed?

/-- No block is accessed after it was freed. -/
def NoUseAfterFree (log : List (MemEvent ι)) : Prop :=
  log.Pairwise fun e e' => ∀ p, e = .free p → e' ≠ .access p

section
variable {log log' : List (MemEvent ι)} {p : ι} {ps : List ι}

@[simp] theorem freed_append : freed (log ++ log') = freed log ++ freed log' :=
  List.filterMap_append

@[simp] theorem freed_accesses : freed (accesses ps) = [] := by
  induction ps with
  | nil => rfl
  | cons p ps ih => exact ih

@[simp] theorem freed_frees : freed (frees ps) = ps := by
  induction ps with
  | nil => rfl
  | cons p ps ih => exact congrArg (p :: ·) ih

@[simp] theorem freed_free : freed [MemEvent.free p] = [p] := rfl

theorem mem_freed : p ∈ freed log ↔ MemEvent.free p ∈ log := by
  unfold freed
  rw [List.mem_filterMap]
  constructor
  · rintro ⟨e, he, hp⟩
    cases e with
    | access q => exact absurd hp (by simp [freed?])
    | free q =>
      cases hp
      exact he
  · intro h
    exact ⟨_, h, rfl⟩

theorem noUseAfterFree_nil : NoUseAfterFree ([] : List (MemEvent ι)) := List.Pairwise.nil

/-- Blocks that were not freed may be accessed. -/
theorem noUseAfterFree_accesses (h : NoUseAfterFree log) (hps : ∀ p ∈ ps, p ∉ freed log) :
    NoUseAfterFree (log ++ accesses ps) := by
  refine List.pairwise_append.mpr ⟨h, ?_, ?_⟩
  · refine List.pairwise_map.mpr (List.pairwise_of_forall fun q r s hs => ?_)
    exact absurd hs (by simp)
  · intro e he e' he' q hq heq
    obtain ⟨r, hr, rfl⟩ := List.mem_map.mp he'
    injection heq with heq
    subst hq heq
    exact hps r hr (mem_freed.mpr he)

theorem noUseAfterFree_append_frees : NoUseAfterFree (log ++ frees ps) ↔ NoUseAfterFree log := by
  refine ⟨fun h => (List.pairwise_append.mp h).1, fun h => List.pairwise_append.mpr ⟨h, ?_, ?_⟩⟩
  · refine List.pairwise_map.mpr (List.pairwise_of_forall fun q r s _ => ?_)
    simp
  · rintro e - e' he' q - heq
    obtain ⟨r, -, rfl⟩ := List.mem_map.mp he'
    cases heq

theorem noUseAfterFree_free (h : NoUseAfterFree log) :
    NoUseAfterFree (log ++ [MemEvent.free p]) := by
  show NoUseAfterFree (log ++ frees [p])
  exact noUseAfterFree_append_frees.mpr h

/-- An access to a block that was freed. -/
theorem not_noUseAfterFree (hp : p ∈ freed log) (haccess : MemEvent.access p ∈ log') :
    ¬ NoUseAfterFree (log ++ log') := fun h =>
  (List.pairwise_append.mp h).2.2 _ (mem_freed.mp hp) _ haccess p rfl rfl

end

end MemEvent
