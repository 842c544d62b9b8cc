import Mathlib.Order.Bounds.Basic

/-!
# Rounding up to a set

`LeastAbove S s x`: of the elements of `S` that are at least `s`, `x` is the least.

* `LeastAbove.le`, `mono`, `eq_self`   rounding up is a closure: it is extensive, monotone and leaves
                                       the elements of `S` where they are;
* `first_le_iff`                       the first index of a table that fits is adjoint to the table.
-/

section
variable {α : Type*} [PartialOrder α]

/-- Of the elements of `S` that are at least `s`, `x` is the least. -/
def LeastAbove (S : Set α) (s x : α) : Prop := IsLeast {y | y ∈ S ∧ s ≤ y} x

namespace LeastAbove

variable {S : Set α} {s t x y : α}

theorem mem (h : LeastAbove S s x) : x ∈ S := h.1.1

theorem le (h : LeastAbove S s x) : s ≤ x := h.1.2

theorem mono (hs : LeastAbove S s x) (ht : LeastAbove S t y) (hst : s ≤ t) : x ≤ y :=
  hs.2 ⟨ht.mem, hst.trans ht.le⟩

theorem eq_self (h : LeastAbove S s x) (hs : s ∈ S) : x = s := le_antisymm (h.2 ⟨hs, le_rfl⟩) h.le

end LeastAbove

end

/-- The first index at which an increasing table reaches `s` is at most `c` exactly when the table
reaches `s` at `c`. -/
theorem first_le_iff {α β : Type*} [Preorder α] [Preorder β] {size : β → α} {D : Set β}
    {s : α} {i c : β} (h : IsLeast {c | c ∈ D ∧ s ≤ size c} i) (hmono : MonotoneOn size D)
    (hc : c ∈ D) : i ≤ c ↔ s ≤ size c :=
  ⟨fun hic => h.1.2.trans (hmono h.1.1 hc hic), fun hs => h.2 ⟨hc, hs⟩⟩
