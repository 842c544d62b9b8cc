import Mathlib.Data.List.Basic
import Mathlib.Tactic

/-!
# The last items, in an array

An array keeps the last `cap` of the items that come in: while it has room an item is put behind the
others, and when it is full they all move down by one first.

* `lastN cap xs`          the last `cap` items of `xs`, and how they change (`lastN_concat_of_lt`,
                          `lastN_concat_of_le`);
* `shiftDown`             the loop that moves the items down;
* `Window.Holds`          the first `count` places of the array are the last `cap` items;
* `Holds.push`, `Holds.pushFull`    one item more.
-/

namespace Window

variable {α : Type*} {cap count m i : ℕ} {es xs : List α} {d x : α}

/-- The last `cap` items. -/
def lastN (cap : ℕ) (xs : List α) : List α := xs.drop (xs.length - cap)

theorem lastN_concat_of_lt (h : xs.length < cap) (x : α) :
    lastN cap (xs ++ [x]) = lastN cap xs ++ [x] := by
  unfold lastN
  rw [List.length_append, List.length_singleton, Nat.sub_eq_zero_of_le h,
    Nat.sub_eq_zero_of_le h.le, List.drop_zero, List.drop_zero]

theorem lastN_concat_of_le (hcap : 0 < cap) (h : cap ≤ xs.length) (x : α) :
    lastN cap (xs ++ [x]) = (lastN cap xs).drop 1 ++ [x] := by
  have hlen : xs.length + 1 - cap = xs.length - cap + 1 := by omega
  unfold lastN
  rw [List.length_append, List.length_singleton, hlen, List.drop_drop,
    List.drop_append_of_le_length (by omega)]

/-- The loop that moves `m` items down by one place, each to where its predecessor was. -/
def shiftDown (d : α) (m : ℕ) (es : List α) : List α :=
  (List.range m).foldl (fun es i => es.set i (es.getD (i + 1) d)) es

theorem shiftDown_succ (d : α) (m : ℕ) (es : List α) :
    shiftDown d (m + 1) es = (shiftDown d m es).set m ((shiftDown d m es).getD (m + 1) d) := by
  rw [shiftDown, List.range_succ, List.foldl_append]
  rfl

@[simp] theorem length_shiftDown (d : α) (m : ℕ) (es : List α) :
    (shiftDown d m es).length = es.length := by
  induction m with
  | zero => rfl
  | succ m ih => rw [shiftDown_succ, List.length_set, ih]

/-- The places the loop has come to hold their successors, the others what they held. -/
theorem getElem?_shiftDown (hm : m < es.length) (i : ℕ) :
    (shiftDown d m es)[i]? = if i < m then es[i + 1]? else es[i]? := by
  induction m generalizing i with
  | zero => rfl
  | succ m ih =>
    have hlt : m < es.length := by omega
    have hnext : (shiftDown d m es).getD (m + 1) d = es[m + 1] := by
      rw [List.getD_eq_getElem?_getD, ih hlt, if_neg (by omega), List.getElem?_eq_getElem hm]
      rfl
    rw [shiftDown_succ, List.getElem?_set, length_shiftDown, hnext]
    rcases Nat.lt_trichotomy i m with h | rfl | h
    · rw [if_neg (by omega), ih hlt, if_pos h, if_pos (by omega)]
    · rw [if_pos rfl, if_pos hlt, if_pos (Nat.lt_succ_self i), List.getElem?_eq_getElem hm]
    · rw [if_neg (by omega), ih hlt, if_neg (by omega), if_neg (by omega)]

theorem take_shiftDown (hm : m < es.length) :
    (shiftDown d m es).take m = (es.take (m + 1)).drop 1 := by
  refine List.ext_getElem? fun i => ?_
  rw [List.getElem?_take, getElem?_shiftDown hm, List.getElem?_drop, List.getElem?_take,
    Nat.add_comm 1 i]
  by_cases h : i < m
  · rw [if_pos h, if_pos h, if_pos (by omega)]
  · rw [if_neg h, if_neg (by omega)]

theorem take_set_concat (h : count < es.length) :
    (es.set count x).take (count + 1) = es.take count ++ [x] := by
  rw [List.take_add_one, List.take_set_of_le le_rfl, List.getElem?_set_self h]
  rfl

/-- The first `count` places are the last `cap` of the items `xs`. -/
structure Holds (cap : ℕ) (es : List α) (count : ℕ) (xs : List α) : Prop where
  length : es.length = cap
  count_eq : count = min xs.length cap
  items : es.take count = lastN cap xs

theorem Holds.nil (hlen : es.length = cap) : Holds cap es 0 [] :=
  ⟨hlen, (Nat.zero_min cap).symm, List.drop_nil.symm⟩

/-- One item more where there is room. -/
theorem Holds.push (h : Holds cap es count xs) (hroom : count < cap) (x : α) :
    Holds cap (es.set count x) (count + 1) (xs ++ [x]) := by
  have hcount := h.count_eq
  have hlen : xs.length = count := by omega
  refine ⟨List.length_set.trans h.length, ?_, ?_⟩
  · rw [List.length_append, List.length_singleton]
    omega
  · rw [take_set_concat (h.length.symm ▸ hroom), h.items, lastN_concat_of_lt (by omega)]

/-- One item more where there is none: the first one goes. -/
theorem Holds.pushFull (h : Holds cap es count xs) (hcap : 0 < cap) (hfull : cap ≤ count) (d x : α) :
    Holds cap ((shiftDown d (cap - 1) es).set (cap - 1) x) cap (xs ++ [x]) := by
  have hcount := h.count_eq
  have hlast : cap - 1 < es.length := by rw [h.length]; omega
  have hsucc : cap - 1 + 1 = cap := by omega
  refine ⟨?_, ?_, ?_⟩
  · rw [List.length_set, length_shiftDown, h.length]
  · rw [List.length_append, List.length_singleton]
    omega
  · have htake := take_set_concat (x := x) ((length_shiftDown d (cap - 1) es).symm ▸ hlast)
    rw [take_shiftDown hlast, hsucc] at htake
    have hall : es.take cap = lastN cap xs := by
      rw [← h.items]
      congr 1
      omega
    rw [htake, hall, lastN_concat_of_le hcap (by omega)]

end Window
