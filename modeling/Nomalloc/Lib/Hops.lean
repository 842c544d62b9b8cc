import Mathlib.Data.List.Induction
import Mathlib.Order.Lattice

/-!
# Scans that move on

A scan goes through a list once and moves to every entry that is better than the one it is at.  The
relation `better` need not be transitive, so where the scan ends depends on the entries it stops at
on its way.

* `Stop`              the entries of an increasing list at which a scan stops;
* `scan_spec`         the scan ends at its start or at a stop, with nothing better behind it;
* `scan_eq_of_stop`   and a stop with nothing better behind it is where it ends.
-/

namespace Hops

section
variable {α : Type*} (better : α → α → Prop) [DecidableRel better]

/-- Where a scan of `l` from `b` ends. -/
def scan (b : α) (l : List α) : α := l.foldl (fun b i => if better b i then i else b) b

variable {better} {b : α} {l : List α}

theorem scan_append (b : α) (l m : List α) :
    scan better b (l ++ m) = scan better (scan better b l) m := List.foldl_append

theorem scan_concat (b : α) (l : List α) (x : α) :
    scan better b (l ++ [x]) = if better (scan better b l) x then x else scan better b l :=
  scan_append b l [x]

theorem scan_eq_self (h : ∀ j ∈ l, ¬ better b j) : scan better b l = b := by
  induction l with
  | nil => rfl
  | cons x l ih =>
    obtain ⟨hx, hl⟩ := List.forall_mem_cons.mp h
    show scan better (if better b x then x else b) l = b
    rw [if_neg hx]
    exact ih hl

end

section
variable {α : Type*} [LinearOrder α] (better : α → α → Prop)

/-- The stops of a scan of the increasing list `l` from `b`: the first entry better than `b`, and
from a stop the first entry behind it that is better than it. -/
inductive Stop (b : α) (l : List α) : α → Prop where
  | first {i : α} (hi : i ∈ l) (h : better b i) (hno : ∀ j ∈ l, j < i → ¬ better b j) : Stop b l i
  | next {a i : α} (ha : Stop b l a) (hi : i ∈ l) (hai : a < i) (h : better a i)
      (hno : ∀ j ∈ l, a < j → j < i → ¬ better a j) : Stop b l i

variable {better} {b z : α} {l : List α}

theorem Stop.mem (h : Stop better b l z) : z ∈ l := by
  cases h with
  | first hi _ _ => exact hi
  | next _ hi _ _ _ => exact hi

/-- A longer list has the same stops, and perhaps more. -/
theorem Stop.concat {x : α} (h : Stop better b l z) (hx : ∀ j ∈ l, j < x) :
    Stop better b (l ++ [x]) z := by
  -- the new entry lies behind every stop of the old list
  have hold : ∀ {i j : α}, i ∈ l → j ∈ l ++ [x] → j < i → j ∈ l := by
    intro i j hi hj hji
    rcases List.mem_append.mp hj with hj | hj
    · exact hj
    · rw [List.mem_singleton.mp hj] at hji
      exact absurd (hx i hi) (not_lt_of_gt hji)
  induction h with
  | first hi h hno =>
    exact Stop.first (List.mem_append_left _ hi) h fun j hj hji => hno j (hold hi hj hji) hji
  | next _ hi hai h hno ih =>
    exact Stop.next ih (List.mem_append_left _ hi) hai h
      fun j hj haj hji => hno j (hold hi hj hji) haj hji

/-- What lies behind an entry of an increasing list, and what before. -/
theorem split_at (hl : l.Pairwise (· < ·)) (hz : z ∈ l) :
    ∃ l1 l2, l = l1 ++ z :: l2 ∧ (∀ j ∈ l1, j < z) ∧ ∀ j ∈ l2, z < j := by
  obtain ⟨l1, l2, rfl⟩ := List.append_of_mem hz
  obtain ⟨-, h2, h12⟩ := List.pairwise_append.mp hl
  exact ⟨l1, l2, rfl, fun j hj => h12 j hj z List.mem_cons_self, (List.pairwise_cons.mp h2).1⟩

variable [DecidableRel better]

/-- **Where a scan ends.** -/
theorem scan_spec (hl : l.Pairwise (· < ·)) (b : α) :
    (scan better b l = b ∧ ∀ j ∈ l, ¬ better b j) ∨
      (Stop better b l (scan better b l) ∧
        ∀ j ∈ l, scan better b l < j → ¬ better (scan better b l) j) := by
  induction l using List.reverseRecOn with
  | nil => exact Or.inl ⟨rfl, by simp⟩
  | append_singleton l x ih =>
    obtain ⟨hl, -, hx⟩ := List.pairwise_append.mp hl
    have hx : ∀ j ∈ l, j < x := fun j hj => hx j hj x (List.mem_singleton_self x)
    rw [scan_concat]
    by_cases hb : better (scan better b l) x
    · -- the last entry is a stop, and nothing lies behind it
      rw [if_pos hb]
      refine Or.inr ⟨?_, fun j hj hxj => ?_⟩
      · have hmem : x ∈ l ++ [x] := List.mem_append_right _ (List.mem_singleton_self x)
        have hbefore : ∀ j ∈ l ++ [x], j < x → j ∈ l := by
          intro j hj hjx
          rcases List.mem_append.mp hj with hj | hj
          · exact hj
          · exact absurd (List.mem_singleton.mp hj) (ne_of_lt hjx)
        rcases ih hl with ⟨he, hno⟩ | ⟨hs, hno⟩
        · rw [he] at hb
          exact Stop.first hmem hb fun j hj hjx => hno j (hbefore j hj hjx)
        · exact Stop.next (hs.concat hx) hmem (hx _ hs.mem) hb
            fun j hj haj hjx => hno j (hbefore j hj hjx) haj
      · rcases List.mem_append.mp hj with hj | hj
        · exact absurd (hx j hj) (not_lt_of_gt hxj)
        · exact absurd (List.mem_singleton.mp hj).symm (ne_of_lt hxj)
    · rw [if_neg hb]
      rcases ih hl with ⟨he, hno⟩ | ⟨hs, hno⟩
      · refine Or.inl ⟨he, fun j hj => ?_⟩
        rcases List.mem_append.mp hj with hj | hj
        · exact hno j hj
        · rwa [List.mem_singleton.mp hj, ← he]
      · refine Or.inr ⟨hs.concat hx, fun j hj hlt => ?_⟩
        rcases List.mem_append.mp hj with hj | hj
        · exact hno j hj hlt
        · rwa [List.mem_singleton.mp hj]

theorem Stop.scan_eq (hl : l.Pairwise (· < ·)) (h : Stop better b l z) :
    ∃ l1 l2, l = l1 ++ z :: l2 ∧ (∀ j ∈ l2, z < j) ∧ scan better b (l1 ++ [z]) = z := by
  induction h with
  | @first i hi h hno =>
    obtain ⟨l1, l2, he, h1, h2⟩ := split_at hl hi
    refine ⟨l1, l2, he, h2, ?_⟩
    have hstay : scan better b l1 = b := scan_eq_self fun j hj =>
      hno j (he ▸ List.mem_append_left _ hj) (h1 j hj)
    rw [scan_concat, hstay, if_pos h]
  | @next a i _ hi hai h hno ih =>
    obtain ⟨l1, l2, he, h2, hscan⟩ := ih
    have hi2 : i ∈ l2 := by
      rw [he] at hi hl
      rcases List.mem_append.mp hi with hi | hi
      · exact absurd ((List.pairwise_append.mp hl).2.2 i hi a List.mem_cons_self)
          (not_lt_of_gt hai)
      · exact (List.mem_cons.mp hi).resolve_left (ne_of_gt hai)
    have hl2 : l2.Pairwise (· < ·) := by
      rw [he] at hl
      exact (List.pairwise_cons.mp (List.pairwise_append.mp hl).2.1).2
    obtain ⟨m1, m2, hm, hm1, hm2⟩ := split_at hl2 hi2
    refine ⟨l1 ++ a :: m1, m2, by rw [he, hm]; simp, hm2, ?_⟩
    have hstay : scan better a m1 = a := scan_eq_self fun j hj => by
      have hj2 : j ∈ l2 := hm ▸ List.mem_append_left _ hj
      exact hno j (he ▸ List.mem_append_right _ (List.mem_cons_of_mem _ hj2)) (h2 j hj2) (hm1 j hj)
    rw [scan_concat, ← List.singleton_append, ← List.append_assoc, scan_append, hscan, hstay,
      if_pos h]

/-- **A stop with nothing better behind it** is where the scan ends. -/
theorem scan_eq_of_stop (hl : l.Pairwise (· < ·)) (h : Stop better b l z)
    (hno : ∀ j ∈ l, z < j → ¬ better z j) : scan better b l = z := by
  obtain ⟨l1, l2, he, h2, hscan⟩ := h.scan_eq hl
  have hstay : scan better z l2 = z := scan_eq_self fun j hj =>
    hno j (he ▸ List.mem_append_right _ (List.mem_cons_of_mem _ hj)) (h2 j hj)
  rw [he, ← List.singleton_append, ← List.append_assoc, scan_append, hscan, hstay]

end

end Hops
