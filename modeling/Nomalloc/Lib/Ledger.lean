import Mathlib.Data.List.Nodup
import Mathlib.Data.List.Perm.Basic
import Mathlib.Logic.Function.Basic

/-!
# Items in the custody of places

Items are accepted one after the other, each into a place, and are delivered from there.  A ledger
numbers the items in the order in which they were accepted.

* `accept p x`   the item `x` goes to the place `p`;
* `deliver ps`   the items at the places `ps` are delivered, in this order;
* `held`         the numbers of the items not delivered;
* `Balanced`     every item is at one of the places in use or among the delivered ones, once.

`Balanced.accept`, `Balanced.deliver` keep the balance, `Balanced.one_place` says where an item is,
`Balanced.delivered_iff` when all are delivered, `calls_deliver` and `calls_accept` what was
delivered.
-/

variable {α ι : Type*}

/-- The items accepted, the number of the item at each place, and the numbers of the items
delivered. -/
structure Ledger (α ι : Type*) where
  accepted : List α
  holder : ι → ℕ
  delivered : List ℕ

namespace Ledger

/-- An item is accepted and put at `p`. -/
def accept [DecidableEq ι] (u : Ledger α ι) (p : ι) (x : α) : Ledger α ι :=
  { u with
    accepted := u.accepted ++ [x]
    holder := Function.update u.holder p u.accepted.length }

/-- The items at `ps` are delivered. -/
def deliver (u : Ledger α ι) (ps : List ι) : Ledger α ι :=
  { u with delivered := u.delivered ++ ps.map u.holder }

/-- The items delivered, in order. -/
def calls (u : Ledger α ι) : List α := u.delivered.filterMap fun i => u.accepted[i]?

/-- The numbers of the items accepted and not delivered. -/
def held (u : Ledger α ι) : List ℕ :=
  (List.range u.accepted.length).filter fun i => i ∉ u.delivered

/-- Every item is delivered or at a place in use, once, and the places hold what `item` says. -/
structure Balanced (u : Ledger α ι) (item : ι → α) (places : List ι) : Prop where
  once : (u.delivered ++ places.map u.holder).Perm (List.range u.accepted.length)
  holds : ∀ p ∈ places, u.accepted[u.holder p]? = some (item p)

section
variable {u : Ledger α ι} {item item' : ι → α} {places places' out rest : List ι} {p : ι} {x : α}

theorem Balanced.congr (h : Balanced u item places) (hitem : ∀ q ∈ places, item' q = item q) :
    Balanced u item' places := by
  refine ⟨h.once, fun q hq => ?_⟩
  rw [hitem q hq]
  exact h.holds q hq

theorem Balanced.perm (h : Balanced u item places) (hperm : places.Perm places') :
    Balanced u item places' :=
  ⟨((hperm.symm.map u.holder).append_left u.delivered).trans h.once,
    fun q hq => h.holds q (hperm.mem_iff.mpr hq)⟩

/-- Delivering what is at some of the places in use. -/
theorem Balanced.deliver (h : Balanced u item places) (hperm : (out ++ rest).Perm places) :
    Balanced (u.deliver out) item rest := by
  refine ⟨?_, fun q hq => h.holds q (hperm.mem_iff.mp (List.mem_append_right _ hq))⟩
  show ((u.delivered ++ out.map u.holder) ++ rest.map u.holder).Perm _
  rw [List.append_assoc, ← List.map_append]
  exact ((hperm.map u.holder).append_left u.delivered).trans h.once

/-- Accepting an item into a place that is not in use. -/
theorem Balanced.accept [DecidableEq ι] (h : Balanced u item places) (hp : p ∉ places)
    (hitem : ∀ q ∈ places, item' q = item q) (hx : item' p = x) :
    Balanced (u.accept p x) item' (p :: places) := by
  have hold : ∀ q ∈ places, Function.update u.holder p u.accepted.length q = u.holder q :=
    fun q hq => Function.update_of_ne (by rintro rfl; exact hp hq) ..
  refine ⟨?_, fun q hq => ?_⟩
  · show (u.delivered ++ (p :: places).map (Function.update u.holder p u.accepted.length)).Perm
      (List.range (u.accepted ++ [x]).length)
    rw [List.map_cons, Function.update_self, List.map_congr_left hold, List.length_append,
      List.length_singleton, List.range_succ]
    exact (List.perm_middle.trans (h.once.cons _)).trans (List.perm_append_singleton ..).symm
  · show (u.accepted ++ [x])[Function.update u.holder p u.accepted.length q]? = _
    rcases List.mem_cons.mp hq with rfl | hq
    · rw [Function.update_self, List.getElem?_concat_length, hx]
    · have hget := h.holds q hq
      have hlt := (List.getElem?_eq_some_iff.mp hget).1
      rw [hold q hq, List.getElem?_append_left hlt, hget, hitem q hq]

theorem Balanced.calls_deliver (h : Balanced u item places) (hout : ∀ q ∈ out, q ∈ places) :
    (u.deliver out).calls = u.calls ++ out.map item := by
  unfold calls Ledger.deliver
  rw [List.filterMap_append]
  congr 1
  rw [List.filterMap_map]
  have hsome : ∀ q ∈ out, ((fun i => u.accepted[i]?) ∘ u.holder) q = some (item q) :=
    fun q hq => h.holds q (hout q hq)
  rw [List.filterMap_congr hsome]
  exact congrFun List.filterMap_eq_map out

theorem Balanced.calls_accept [DecidableEq ι] (h : Balanced u item places) (p : ι) (x : α) :
    (u.accept p x).calls = u.calls := by
  unfold calls Ledger.accept
  refine List.filterMap_congr fun i hi => ?_
  have hmem := h.once.mem_iff.mp (List.mem_append_left _ hi)
  exact List.getElem?_append_left (List.mem_range.mp hmem)

/-- **An item is in one place**: delivered once and held nowhere, or held at one place in use. -/
theorem Balanced.one_place (h : Balanced u item places) {i : ℕ}
    (hi : i < u.accepted.length) :
    (u.delivered.count i = 1 ∧ ∀ p ∈ places, u.holder p ≠ i) ∨
      (i ∉ u.delivered ∧ ∃! p, p ∈ places ∧ u.holder p = i) := by
  have hcount : u.delivered.count i + (places.map u.holder).count i = 1 := by
    rw [← List.count_append, h.once.count_eq, List.count_eq_one_of_mem List.nodup_range]
    exact List.mem_range.mpr hi
  have hall : (u.delivered ++ places.map u.holder).Nodup := h.once.nodup_iff.mpr List.nodup_range
  by_cases hd : i ∈ u.delivered
  · have hpos := List.count_pos_iff.mpr hd
    refine Or.inl ⟨by omega, fun p hp he => ?_⟩
    have hheld := List.count_pos_iff.mpr (List.mem_map.mpr ⟨p, hp, he⟩)
    omega
  · have hzero := List.count_eq_zero_of_not_mem hd
    obtain ⟨p, hp, he⟩ := List.mem_map.mp (List.count_pos_iff.mp
      (show 0 < (places.map u.holder).count i by omega))
    refine Or.inr ⟨hd, p, ⟨hp, he⟩, fun q ⟨hq, hqe⟩ => ?_⟩
    exact List.inj_on_of_nodup_map hall.of_append_right hq hp (hqe.trans he.symm)

theorem held_deliver_accept [DecidableEq ι] (u : Ledger α ι) (p : ι) (x : α) :
    ((u.accept p x).deliver [p]).held = u.held := by
  show (List.range (u.accepted ++ [x]).length).filter (fun i => i ∉ u.delivered ++
    [Function.update u.holder p u.accepted.length p]) = u.held
  rw [Function.update_self, List.length_append, List.length_singleton, List.range_succ,
    List.filter_append]
  have hold : ∀ i ∈ List.range u.accepted.length,
      decide (i ∉ u.delivered ++ [u.accepted.length]) = decide (i ∉ u.delivered) := by
    intro i hi
    have hne : i ≠ u.accepted.length := Nat.ne_of_lt (List.mem_range.mp hi)
    simp [hne]
  rw [List.filter_congr hold]
  simp [held]

/-- What is at a place in use is held. -/
theorem Balanced.mem_held (h : Balanced u item places) (hp : p ∈ places) : u.holder p ∈ u.held := by
  have hlt := (List.getElem?_eq_some_iff.mp (h.holds p hp)).1
  have hall : (u.delivered ++ places.map u.holder).Nodup := h.once.nodup_iff.mpr List.nodup_range
  refine List.mem_filter.mpr ⟨List.mem_range.mpr hlt, decide_eq_true fun hd => ?_⟩
  exact List.disjoint_of_nodup_append hall hd (List.mem_map_of_mem hp)

/-- **All is delivered**, every item once, exactly when no place is in use. -/
theorem Balanced.delivered_iff (h : Balanced u item places) :
    (∀ i < u.accepted.length, u.delivered.count i = 1) ↔ places = [] := by
  constructor
  · intro hall
    refine List.eq_nil_iff_forall_not_mem.mpr fun p hp => ?_
    obtain ⟨hlt, hheld⟩ := List.mem_filter.mp (h.mem_held hp)
    have hone := hall _ (List.mem_range.mp hlt)
    rw [List.count_eq_zero_of_not_mem (of_decide_eq_true hheld)] at hone
    exact Nat.zero_ne_one hone
  · rintro rfl i hi
    rcases h.one_place hi with ⟨hone, -⟩ | ⟨-, p, ⟨hp, -⟩, -⟩
    · exact hone
    · exact absurd hp List.not_mem_nil

end

end Ledger
