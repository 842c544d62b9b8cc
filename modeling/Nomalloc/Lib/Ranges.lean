import Mathlib.Algebra.BigOperators.Group.List.Basic
import Mathlib.Algebra.GroupWithZero.Nat
import Mathlib.Order.Interval.Finset.Nat

/-!
# Ranges of addresses

* `a.Has x`, `a.Apart b`, `a.Within b`   what a range is as a set of addresses;
* `total b l`                            the length of the ranges of `l` that lie within `b`.

An empty range has no address, and is apart from every other.  Ranges that are pairwise apart have
no more length together than what they lie within (`total_le`).
-/

namespace Ranges

/-- The addresses from `start` to below `start + length`. -/
structure Range where
  start : ℕ
  length : ℕ
deriving DecidableEq, Repr

namespace Range

def Has (a : Range) (x : ℕ) : Prop := a.start ≤ x ∧ x < a.start + a.length

/-- They have no address in common. -/
def Apart (a b : Range) : Prop := ∀ x, a.Has x → ¬ b.Has x

def Within (a b : Range) : Prop := b.start ≤ a.start ∧ a.start + a.length ≤ b.start + b.length

instance (a b : Range) : Decidable (a.Within b) := inferInstanceAs (Decidable (_ ∧ _))

/-- The length that counts towards `b`. -/
def share (b a : Range) : ℕ := if a.Within b then a.length else 0

end Range

/-- The length of the ranges that lie within `b`. -/
def total (b : Range) (l : List Range) : ℕ := (l.map b.share).sum

section
variable {a b : Range} {l : List Range} {x : ℕ}

theorem Range.Within.has (h : a.Within b) (hx : a.Has x) : b.Has x := by
  obtain ⟨hlo, hhi⟩ := h
  obtain ⟨hax, hxa⟩ := hx
  exact ⟨hlo.trans hax, lt_of_lt_of_le hxa hhi⟩

theorem Range.has_start (h : 0 < a.length) : a.Has a.start := ⟨le_rfl, by omega⟩

@[simp] theorem total_nil (b : Range) : total b [] = 0 := rfl

@[simp] theorem total_cons (b a : Range) (l : List Range) :
    total b (a :: l) = b.share a + total b l := rfl

/-- What a range that goes takes with it. -/
theorem total_erase (h : a ∈ l) (b : Range) : total b (l.erase a) + b.share a = total b l := by
  have hperm := (List.perm_cons_erase h).map b.share
  unfold total
  rw [hperm.sum_eq, List.map_cons, List.sum_cons, Nat.add_comm]

/-- Ranges that are pairwise apart have as many addresses as their lengths say. -/
theorem exists_addresses (b : Range) (hapart : l.Pairwise Range.Apart) : ∃ u : Finset ℕ,
    u.card = total b l ∧ ∀ x ∈ u, b.Has x ∧ ∃ a ∈ l, a.Has x := by
  induction l with
  | nil => exact ⟨∅, rfl, fun x hx => absurd hx (Finset.notMem_empty x)⟩
  | cons a l ih =>
    obtain ⟨hal, hl⟩ := List.pairwise_cons.mp hapart
    obtain ⟨u, hcard, hu⟩ := ih hl
    have hrest : ∀ x ∈ u, b.Has x ∧ ∃ a' ∈ a :: l, a'.Has x := fun x hx =>
      ⟨(hu x hx).1, (hu x hx).2.imp fun _ ha => ⟨List.mem_cons_of_mem _ ha.1, ha.2⟩⟩
    rw [total_cons]
    unfold Range.share
    by_cases hin : a.Within b
    · have hdisj : Disjoint (Finset.Ico a.start (a.start + a.length)) u := by
        refine Finset.disjoint_left.mpr fun x hx hxu => ?_
        obtain ⟨-, a', ha', hax⟩ := hu x hxu
        exact hal a' ha' x (Finset.mem_Ico.mp hx) hax
      refine ⟨Finset.Ico a.start (a.start + a.length) ∪ u, ?_, fun x hx => ?_⟩
      · rw [Finset.card_union_of_disjoint hdisj, Nat.card_Ico, hcard, if_pos hin,
          Nat.add_sub_cancel_left]
      · rcases Finset.mem_union.mp hx with hx | hx
        · have hax : a.Has x := Finset.mem_Ico.mp hx
          exact ⟨hin.has hax, a, List.mem_cons_self, hax⟩
        · exact hrest x hx
    · refine ⟨u, ?_, hrest⟩
      rw [hcard, if_neg hin, Nat.zero_add]

/-- **Ranges that are apart fit** into what they lie within. -/
theorem total_le (b : Range) (hapart : l.Pairwise Range.Apart) : total b l ≤ b.length := by
  obtain ⟨u, hcard, hu⟩ := exists_addresses b hapart
  have hsub : u ⊆ Finset.Ico b.start (b.start + b.length) := fun x hx =>
    Finset.mem_Ico.mpr (hu x hx).1
  calc total b l = u.card := hcard.symm
    _ ≤ (Finset.Ico b.start (b.start + b.length)).card := Finset.card_le_card hsub
    _ = b.length := by rw [Nat.card_Ico, Nat.add_sub_cancel_left]

end

end Ranges
