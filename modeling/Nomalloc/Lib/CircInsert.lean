import Nomalloc.Lib.CircList
import Mathlib.Data.List.InsertIdx

/-!
# A node put anywhere into a circular list

A circle is its head and then its nodes, or its nodes and then its head.  A place in it is an index
`i ≤ ns.length`: the node before the place is `(head :: ns)[i]`, the one behind it
`(ns ++ [head])[i]`.

* `Between l l' p x q`     `x` has been linked in between `p` and `q`, and nothing else is stored to;
* `putBehind`, `putBefore`   where a node goes that is put next to `pos`, on a list of nodes.

`CircList.behind`, `CircList.before` say what becomes of the list `pos` is on, `CircLists.behind`,
`CircLists.before` of all of them.
-/

variable {ν : Type*}

/-- `x` has come between `p` and `q`. -/
structure Between (l l' : Links ν) (p x q : ν) : Prop where
  next_p : l'.next p = some x
  next_x : l'.next x = some q
  prev_x : l'.prev x = some p
  prev_q : l'.prev q = some x
  next_other : ∀ n, n ≠ p → n ≠ x → l'.next n = l.next n
  prev_other : ∀ n, n ≠ q → n ≠ x → l'.prev n = l.prev n
  fault : l'.fault = l.fault

/-- The nodes of the list with this head once `x` stands behind `pos`; a list that `pos` is not on
stays as it is. -/
def putBehind [DecidableEq ν] (head pos x : ν) (ns : List ν) : List ν :=
  ns.insertIdx ((head :: ns).idxOf pos) x

/-- The same with `x` before `pos`. -/
def putBefore [DecidableEq ν] (head pos x : ν) (ns : List ν) : List ν :=
  ns.insertIdx ((ns ++ [head]).idxOf pos) x

example : putBehind 0 0 9 [1, 2] = [9, 1, 2] ∧ putBehind 0 2 9 [1, 2] = [1, 2, 9] ∧
    putBefore 0 0 9 [1, 2] = [1, 2, 9] ∧ putBefore 0 2 9 [1, 2] = [1, 9, 2] ∧
    putBehind 0 7 9 [1, 2] = [1, 2] := by decide

section
variable {l l' : Links ν} {head p q x : ν} {ns : List ν} {i : ℕ}

/-- The list taken apart at a place. -/
theorem place_split (ns : List ν) (i : ℕ) (hp : (head :: ns)[i]? = some p)
    (hq : (ns ++ [head])[i]? = some q) : ∃ as bs, ns = as ++ bs ∧ i = as.length ∧
      (head :: as).getLast? = some p ∧ (bs ++ [head]).head? = some q := by
  have hi : i ≤ ns.length := by
    have := (List.getElem?_eq_some_iff.mp hp).1
    rw [List.length_cons] at this
    omega
  have hlen : (ns.take i).length = i := List.length_take_of_le hi
  refine ⟨ns.take i, ns.drop i, (List.take_append_drop i ns).symm, hlen.symm, ?_, ?_⟩
  · rw [List.getLast?_eq_getElem?, List.length_cons, hlen, Nat.add_sub_cancel, ← hp,
      ← List.take_succ_cons, List.getElem?_take_of_lt (Nat.lt_succ_self i)]
  · rw [← hq, List.head?_eq_getElem?]
    conv_rhs => rw [← List.take_append_drop i ns]
    rw [List.append_assoc, List.getElem?_append_right (Nat.le_of_eq hlen), hlen, Nat.sub_self]

/-- The two nodes at a place point to each other. -/
theorem CircList.place (h : CircList l head ns) (hp : (head :: ns)[i]? = some p)
    (hq : (ns ++ [head])[i]? = some q) : l.next p = some q ∧ l.prev q = some p := by
  obtain ⟨as, bs, rfl, -, hlast, hfirst⟩ := place_split ns i hp hq
  constructor
  · rcases List.eq_nil_or_concat' as with rfl | ⟨init, z, rfl⟩
    · have he : head = p := Option.some.inj hlast
      rw [← he, h.head_next]
      exact hfirst
    · rw [← List.cons_append, List.getLast?_concat] at hlast
      have hsplit := h
      rw [List.append_assoc, List.singleton_append] at hsplit
      rw [← Option.some.inj hlast, hsplit.split.1]
      exact hfirst
  · cases bs with
    | nil =>
      rw [← Option.some.inj hfirst, h.head_prev, List.append_nil]
      exact hlast
    | cons b bs =>
      rw [← Option.some.inj hfirst, h.split.2]
      exact hlast

/-- **A node linked in at a place.** -/
theorem CircList.insertAt (h : CircList l head ns) (hx : x ∉ head :: ns)
    (hp : (head :: ns)[i]? = some p) (hq : (ns ++ [head])[i]? = some q)
    (hb : Between l l' p x q) : CircList l' head (ns.insertIdx i x) := by
  obtain ⟨hpq, hqp⟩ := h.place hp hq
  obtain ⟨as, bs, rfl, rfl, hlast, hfirst⟩ := place_split ns i hp hq
  have hins : (as ++ bs).insertIdx as.length x = as ++ x :: bs := by
    clear hp hq hx h hlast
    induction as with
    | nil => rfl
    | cons a as ih => exact congrArg (a :: ·) ih
  have hne : ∀ n ∈ head :: (as ++ bs), n ≠ x := by
    rintro n hn rfl
    exact hx hn
  rw [hins]
  refine ⟨?_, ?_, ?_⟩
  · refine h.next.insert h.nodup hx hlast hb.next_p ?_ fun n hn hnp =>
      hb.next_other n hnp (hne n hn)
    rw [hb.next_x, hpq]
  · have hrev : (as ++ x :: bs).reverse = bs.reverse ++ x :: as.reverse := by
      rw [List.reverse_append, List.reverse_cons, List.append_assoc, List.singleton_append]
    have hmem : ∀ n, n ∈ head :: (bs.reverse ++ as.reverse) ↔ n ∈ head :: (as ++ bs) := by
      intro n
      rw [← List.reverse_append, List.mem_cons, List.mem_reverse, List.mem_cons]
    have hprev := h.prev
    have hnd := h.nodup_reverse
    rw [List.reverse_append] at hprev hnd
    have hfirst' : (head :: bs.reverse).getLast? = some q := by
      rw [← hfirst, ← List.getLast?_reverse, List.reverse_append]
      rfl
    rw [hrev]
    refine hprev.insert hnd (fun hin => hx ((hmem x).mp hin)) hfirst' hb.prev_q ?_
      fun n hn hnq => hb.prev_other n hnq (hne n ((hmem n).mp hn))
    rw [hb.prev_x, hqp]
  · refine (List.perm_middle.cons head).nodup_iff.mpr ?_
    refine (List.Perm.swap head x (as ++ bs)).nodup_iff.mp ?_
    exact List.nodup_cons.mpr ⟨hx, h.nodup⟩

/-- A list that none of the three nodes is on. -/
theorem CircList.between_other (h : CircList l head ns) (hb : Between l l' p x q)
    (hp : p ∉ head :: ns) (hx : x ∉ head :: ns) (hq : q ∉ head :: ns) : CircList l' head ns := by
  refine h.congr (fun n hn => hb.next_other n ?_ ?_) fun n hn => hb.prev_other n ?_ ?_
  all_goals
    rintro rfl
    contradiction

end

/-! ## next to a node -/

section
variable [DecidableEq ν] {l l' : Links ν} {head p q x pos : ν} {ns : List ν}

theorem putBehind_of_notMem (hpos : pos ∉ head :: ns) (x : ν) : putBehind head pos x ns = ns := by
  unfold putBehind
  rw [List.idxOf_eq_length hpos, List.length_cons,
    List.insertIdx_of_length_lt (Nat.lt_succ_self _)]

theorem putBefore_of_notMem (hpos : pos ∉ head :: ns) (x : ν) : putBefore head pos x ns = ns := by
  have hpos' : pos ∉ ns ++ [head] := by
    intro hin
    rcases List.mem_append.mp hin with hin | hin
    · exact hpos (List.mem_cons_of_mem _ hin)
    · exact hpos (List.mem_singleton.mp hin ▸ List.mem_cons_self)
  unfold putBefore
  rw [List.idxOf_eq_length hpos', List.length_append, List.length_singleton,
    List.insertIdx_of_length_lt (Nat.lt_succ_self _)]

/-- Behind the head is at the front. -/
theorem putBehind_head (head x : ν) (ns : List ν) : putBehind head head x ns = x :: ns := by
  unfold putBehind
  rw [List.idxOf_cons_self, List.insertIdx_zero]

/-- Before the head is at the end. -/
theorem putBefore_head (hhead : head ∉ ns) (x : ν) : putBefore head head x ns = ns ++ [x] := by
  unfold putBefore
  rw [List.idxOf_append_of_notMem hhead, List.idxOf_cons_self, Nat.add_zero,
    List.insertIdx_length_self]

theorem mem_putBehind {n : ν} (hn : n ∈ putBehind head pos x ns) : n = x ∨ n ∈ ns :=
  List.mem_cons.mp (List.insertIdx_subset_cons _ _ _ hn)

theorem mem_putBefore {n : ν} (hn : n ∈ putBefore head pos x ns) : n = x ∨ n ∈ ns :=
  List.mem_cons.mp (List.insertIdx_subset_cons _ _ _ hn)

/-- The place behind a node of the circle. -/
theorem place_behind (hpos : pos ∈ head :: ns) : ∃ q, q ∈ head :: ns ∧
    (head :: ns)[(head :: ns).idxOf pos]? = some pos ∧
    (ns ++ [head])[(head :: ns).idxOf pos]? = some q := by
  have hlt := List.idxOf_lt_length_of_mem hpos
  have hlt' : (head :: ns).idxOf pos < (ns ++ [head]).length := by
    rw [List.length_append, List.length_singleton]
    exact hlt
  refine ⟨_, ?_, List.getElem?_idxOf hpos, List.getElem?_eq_getElem hlt'⟩
  exact List.mem_cons.mpr ((List.mem_append.mp (List.getElem_mem hlt')).symm.imp_left
    List.mem_singleton.mp)

/-- The place before a node of the circle. -/
theorem place_before (hpos : pos ∈ head :: ns) : ∃ p, p ∈ head :: ns ∧
    (head :: ns)[(ns ++ [head]).idxOf pos]? = some p ∧
    (ns ++ [head])[(ns ++ [head]).idxOf pos]? = some pos := by
  have hpos' : pos ∈ ns ++ [head] :=
    List.mem_append.mpr ((List.mem_cons.mp hpos).symm.imp_right List.mem_singleton.mpr)
  have hlt := List.idxOf_lt_length_of_mem hpos'
  have hlt' : (ns ++ [head]).idxOf pos < (head :: ns).length := by
    rw [List.length_append, List.length_singleton] at hlt
    exact hlt
  exact ⟨_, List.getElem_mem hlt', List.getElem?_eq_getElem hlt', List.getElem?_idxOf hpos'⟩

/-- The node behind `pos` on its list, and the list once another one is linked in there. -/
theorem CircList.behind (h : CircList l head ns) (hpos : pos ∈ head :: ns) :
    ∃ q ∈ head :: ns, l.next pos = some q ∧ ∀ x l', x ∉ head :: ns → Between l l' pos x q →
      CircList l' head (putBehind head pos x ns) := by
  obtain ⟨q, hqmem, hp, hq⟩ := place_behind hpos
  exact ⟨q, hqmem, (h.place hp hq).1, fun x l' hx hb => h.insertAt hx hp hq hb⟩

theorem CircList.before (h : CircList l head ns) (hpos : pos ∈ head :: ns) :
    ∃ p ∈ head :: ns, l.prev pos = some p ∧ ∀ x l', x ∉ head :: ns → Between l l' p x pos →
      CircList l' head (putBefore head pos x ns) := by
  obtain ⟨p, hpmem, hp, hq⟩ := place_before hpos
  exact ⟨p, hpmem, (h.place hp hq).2, fun x l' hx hb => h.insertAt hx hp hq hb⟩

end

/-! ## several lists -/

namespace CircLists

section
variable {κ : Type*} {l l' : Links ν} {head : κ → ν} {lists lists' : κ → List ν} {k : κ}
  {p q x : ν}

/-- One list takes in a node that is on none. -/
theorem between (h : CircLists l head lists) (hx : ∀ j, x ∉ head j :: lists j)
    (hp : p ∈ head k :: lists k) (hq : q ∈ head k :: lists k) (hb : Between l l' p x q)
    (hk : CircList l' (head k) (lists' k)) (hmem : ∀ n ∈ lists' k, n = x ∨ n ∈ lists k)
    (hother : ∀ j, j ≠ k → lists' j = lists j) : CircLists l' head lists' := by
  have hold : ∀ j, ∀ n ∈ head j :: lists' j, n ∈ head j :: lists j ∨ (n = x ∧ j = k) := by
    intro j n hn
    by_cases hj : j = k
    · subst hj
      rcases List.mem_cons.mp hn with hn | hn
      · exact Or.inl (hn ▸ List.mem_cons_self)
      · exact (hmem n hn).symm.imp (List.mem_cons_of_mem _) fun he => ⟨he, rfl⟩
    · rw [hother j hj] at hn
      exact Or.inl hn
  refine ⟨fun j => ?_, fun i j hij n hni hnj => ?_, hb.fault.trans h.noFault⟩
  · by_cases hj : j = k
    · exact hj ▸ hk
    · rw [hother j hj]
      exact (h.circ j).between_other hb (h.apart k j (Ne.symm hj) p hp) (hx j)
        (h.apart k j (Ne.symm hj) q hq)
  · rcases hold i n hni with h1 | ⟨h1, hik⟩ <;> rcases hold j n hnj with h2 | ⟨h2, hjk⟩
    · exact h.apart i j hij n h1 h2
    · exact hx i (h2 ▸ h1)
    · exact hx j (h1 ▸ h2)
    · exact hij (hik.trans hjk.symm)

end

variable [DecidableEq ν] {κ : Type*} {l : Links ν} {head : κ → ν} {lists : κ → List ν} {k : κ}
  {x pos : ν}

/-- A node that is on no list is linked in behind one that is. -/
theorem behind (h : CircLists l head lists) (hpos : pos ∈ head k :: lists k)
    (hx : ∀ j, x ∉ head j :: lists j) : ∃ q, l.next pos = some q ∧ q ≠ x ∧
      ∀ l', Between l l' pos x q →
        CircLists l' head fun j => putBehind (head j) pos x (lists j) := by
  obtain ⟨q, hqmem, hnext, hput⟩ := (h.circ k).behind hpos
  refine ⟨q, hnext, fun he => hx k (he ▸ hqmem), fun l' hb => ?_⟩
  exact h.between hx hpos hqmem hb (hput x l' (hx k) hb) (fun n hn => mem_putBehind hn)
    fun j hj => putBehind_of_notMem (h.apart k j (Ne.symm hj) pos hpos) x

theorem before (h : CircLists l head lists) (hpos : pos ∈ head k :: lists k)
    (hx : ∀ j, x ∉ head j :: lists j) : ∃ p, l.prev pos = some p ∧ p ≠ x ∧
      ∀ l', Between l l' p x pos →
        CircLists l' head fun j => putBefore (head j) pos x (lists j) := by
  obtain ⟨p, hpmem, hprev, hput⟩ := (h.circ k).before hpos
  refine ⟨p, hprev, fun he => hx k (he ▸ hpmem), fun l' hb => ?_⟩
  exact h.between hx hpmem hpos hb (hput x l' (hx k) hb) (fun n hn => mem_putBefore hn)
    fun j hj => putBefore_of_notMem (h.apart k j (Ne.symm hj) pos hpos) x

end CircLists
