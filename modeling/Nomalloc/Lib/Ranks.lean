import Mathlib.Data.List.Sort
import Mathlib.Tactic

/-!
# Buckets and ranks

Samples are counted in buckets; `g` puts a sample in its bucket.

* `modify_counts`       one sample more in the counts of the buckets;
* `sum_counts`          the counts of the first buckets add up to the samples in them;
* `kthSmallest xs k`    the `k`-th smallest sample, from `k = 1` on;
* `bucket_le_iff`       for a monotone `g` it is in one of the buckets up to `b` exactly when at least
                        `k` samples are;
* `bucket_eq_iff`       and in `b` exactly when, besides, fewer than `k` samples are below.
-/

namespace Ranks

/-! ## counts -/

section
variable {α : Type*}

theorem countP_lt_succ (g : α → ℕ) (xs : List α) (i : ℕ) :
    xs.countP (g · < i + 1) = xs.countP (g · < i) + xs.countP (g · = i) := by
  induction xs with
  | nil => rfl
  | cons x xs ih =>
    rw [List.countP_cons, List.countP_cons, List.countP_cons, ih]
    rcases Nat.lt_trichotomy (g x) i with h | h | h
    · have hne : g x ≠ i := h.ne
      have hlt : g x < i + 1 := by omega
      simp only [h, hne, hlt, decide_true, decide_false, if_true, Bool.false_eq_true, if_false]
      omega
    · simp only [h, lt_irrefl, Nat.lt_succ_self, decide_true, decide_false, if_true,
        Bool.false_eq_true, if_false]
      omega
    · have hne : g x ≠ i := h.ne'
      have hge : ¬ g x < i := by omega
      have hge' : ¬ g x < i + 1 := by omega
      simp only [hne, hge, hge', decide_false, Bool.false_eq_true, if_false]
      omega

/-- The counts of the first `m` buckets. -/
def counts (g : α → ℕ) (m : ℕ) (xs : List α) : List ℕ :=
  (List.range m).map fun i => xs.countP (g · = i)

@[simp] theorem length_counts (g : α → ℕ) (m : ℕ) (xs : List α) : (counts g m xs).length = m := by
  rw [counts, List.length_map, List.length_range]

theorem counts_nil (g : α → ℕ) (m : ℕ) : counts g m [] = List.replicate m 0 := by
  unfold counts
  induction m with
  | zero => rfl
  | succ m ih => rw [List.range_succ, List.map_append, ih, List.replicate_succ']; rfl

theorem getElem?_counts {g : α → ℕ} {m i : ℕ} (xs : List α) (h : i < m) :
    (counts g m xs)[i]? = some (xs.countP (g · = i)) := by
  rw [counts, List.getElem?_map, List.getElem?_range h]
  rfl

theorem modify_counts (g : α → ℕ) (m : ℕ) (xs : List α) (x : α) :
    (counts g m xs).modify (g x) (· + 1) = counts g m (xs ++ [x]) := by
  refine List.ext_getElem? fun i => ?_
  rw [List.getElem?_modify]
  rcases Nat.lt_or_ge i m with h | h
  · rw [getElem?_counts xs h, getElem?_counts _ h, List.countP_append, List.countP_singleton]
    by_cases he : g x = i <;> simp [he]
  · rw [List.getElem?_eq_none (by rwa [length_counts]),
      List.getElem?_eq_none (by rwa [length_counts])]
    rfl

theorem sum_counts (g : α → ℕ) (m : ℕ) (xs : List α) :
    (counts g m xs).sum = xs.countP (g · < m) := by
  induction m with
  | zero => exact (List.countP_eq_zero.mpr fun x _ => by simp).symm
  | succ m ih =>
    rw [counts, List.range_succ, List.map_append, List.sum_append, countP_lt_succ, ← ih]
    simp [counts]

end

/-! ## ranks -/

section
variable {α β : Type*} [LinearOrder α] [LinearOrder β] {g : α → β} {xs : List α} {b : β} {k : ℕ}

/-- The `k`-th smallest, from `k = 1` on. -/
def kthSmallest (xs : List α) : ℕ → Option α
  | 0 => none
  | k + 1 => (xs.mergeSort (· ≤ ·))[k]?

theorem exists_kthSmallest (hlt : k < xs.length) : ∃ x ∈ xs, kthSmallest xs (k + 1) = some x := by
  have hlen : (xs.mergeSort (· ≤ ·)).length = xs.length := List.length_mergeSort xs
  rw [← hlen] at hlt
  exact ⟨_, List.mem_mergeSort.mp (List.getElem_mem hlt), List.getElem?_eq_getElem hlt⟩

/-- In a sorted list the samples in the buckets up to `b` come first. -/
theorem le_iff_lt_countP (hg : Monotone g) {l : List α} (hl : l.Pairwise (· ≤ ·)) {j : ℕ} {x : α}
    (hx : l[j]? = some x) : g x ≤ b ↔ j < l.countP (g · ≤ b) := by
  induction l generalizing j with
  | nil => exact absurd hx (by simp)
  | cons a l ih =>
    obtain ⟨ha, hl⟩ := List.pairwise_cons.mp hl
    by_cases hab : g a ≤ b
    · have hcount : (a :: l).countP (g · ≤ b) = l.countP (g · ≤ b) + 1 :=
        List.countP_cons_of_pos (decide_eq_true hab)
      rw [hcount]
      cases j with
      | zero =>
        obtain rfl : a = x := Option.some.inj hx
        exact iff_of_true hab (Nat.succ_pos _)
      | succ j => rw [ih hl hx, Nat.succ_lt_succ_iff]
    · -- nothing after `a` is lower
      have hall : ∀ y ∈ a :: l, ¬ g y ≤ b := fun y hy hyb => by
        rcases List.mem_cons.mp hy with rfl | hy
        · exact hab hyb
        · exact hab ((hg (ha y hy)).trans hyb)
      have hcount : (a :: l).countP (g · ≤ b) = 0 :=
        List.countP_eq_zero.mpr fun y hy => by simpa using hall y hy
      rw [hcount]
      exact iff_of_false (hall x (List.mem_of_getElem? hx)) (Nat.not_lt_zero j)

theorem bucket_le_iff (hg : Monotone g) {x : α} (hx : kthSmallest xs k = some x) :
    g x ≤ b ↔ k ≤ xs.countP (g · ≤ b) := by
  obtain ⟨k, rfl⟩ : ∃ j, k = j + 1 := by
    cases k with
    | zero => exact absurd hx (by simp [kthSmallest])
    | succ k => exact ⟨k, rfl⟩
  have hsorted : (xs.mergeSort (· ≤ ·)).Pairwise (· ≤ ·) := by
    exact xs.pairwise_mergeSort' (· ≤ ·)
  rw [le_iff_lt_countP hg hsorted hx, (List.mergeSort_perm xs _).countP_eq, Nat.succ_le_iff]

end

theorem bucket_eq_iff {α : Type*} [LinearOrder α] {g : α → ℕ} {xs : List α} {k : ℕ} {b : ℕ}
    (hg : Monotone g) {x : α} (hx : kthSmallest xs k = some x) :
    g x = b ↔ xs.countP (g · < b) < k ∧ k ≤ xs.countP (g · < b + 1) := by
  have hle : g x ≤ b ↔ k ≤ xs.countP (g · < b + 1) := by
    rw [bucket_le_iff hg hx]
    simp only [Nat.lt_succ_iff]
  have hlt : g x < b ↔ k ≤ xs.countP (g · < b) := by
    cases b with
    | zero =>
      refine iff_of_false (Nat.not_lt_zero _) fun h => ?_
      have hzero : xs.countP (g · < 0) = 0 := List.countP_eq_zero.mpr fun y _ => by simp
      have hk : k ≠ 0 := fun hk => by simp [hk, kthSmallest] at hx
      omega
    | succ b =>
      rw [Nat.lt_succ_iff, bucket_le_iff hg hx]
      simp only [Nat.lt_succ_iff]
  omega

end Ranks
