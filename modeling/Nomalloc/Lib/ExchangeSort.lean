import Mathlib.Data.List.Sort
import Mathlib.Logic.Equiv.Basic
import Mathlib.Tactic

/-!
# Exchange sort

Two nested loops over the words behind a pointer: the inner one exchanges the word at `i` with every
smaller one behind it, after which it is the least of those from `i` on.

* `Settled n i f`   the first `i` of the `n` words are in their places: nothing behind is smaller;
* `exchange_step`, `inner_spec`, `sort_spec`   what one exchange, one row and all rows do;
* `words_sort`      the loops leave the words in ascending order.
-/

namespace ExchangeSort

variable {α : Type*}

/-- The first `n` words. -/
def words (n : ℕ) (f : ℕ → α) : List α := (List.range n).map f

@[simp] theorem length_words (n : ℕ) (f : ℕ → α) : (words n f).length = n := by
  rw [words, List.length_map, List.length_range]

theorem getElem?_words {n i : ℕ} {f : ℕ → α} (hi : i < n) : (words n f)[i]? = some (f i) := by
  rw [words, List.getElem?_map, List.getElem?_range hi]
  rfl

theorem words_update (n : ℕ) (f : ℕ → α) (x : α) :
    words (n + 1) (Function.update f n x) = words n f ++ [x] := by
  unfold words
  rw [List.range_succ, List.map_append, List.map_singleton, Function.update_self]
  refine congrArg (· ++ [x]) (List.map_congr_left fun k hk => ?_)
  exact Function.update_of_ne (List.mem_range.mp hk).ne x f

variable [LinearOrder α]

/-- `if (f[i] > f[j])`, the two are exchanged. -/
def exchange (i j : ℕ) (f : ℕ → α) : ℕ → α :=
  if f j < f i then Function.update (Function.update f i (f j)) j (f i) else f

/-- The inner loop, for `j` from `i + 1` on. -/
def inner (n i : ℕ) (f : ℕ → α) : ℕ → α :=
  (List.range' (i + 1) (n - (i + 1))).foldl (fun f j => exchange i j f) f

/-- The outer loop, for `i` below `n - 1`. -/
def sort (n : ℕ) (f : ℕ → α) : ℕ → α := (List.range (n - 1)).foldl (fun f i => inner n i f) f

/-- The first `i` of the `n` words are in their places. -/
def Settled (n i : ℕ) (f : ℕ → α) : Prop := ∀ a < i, ∀ b, a < b → b < n → f a ≤ f b

section
variable {n i j m : ℕ} {f : ℕ → α}

theorem exchange_cases (i j : ℕ) (f : ℕ → α) :
    (exchange i j f = f ∧ f i ≤ f j) ∨ (exchange i j f = f ∘ Equiv.swap i j ∧ f j < f i) := by
  unfold exchange
  split_ifs with h
  · refine Or.inr ⟨?_, h⟩
    rw [Equiv.swap_comm, Equiv.comp_swap_eq_update]
  · exact Or.inl ⟨rfl, not_lt.mp h⟩

theorem swap_lt {k : ℕ} (hi : i < n) (hj : j < n) (hk : k < n) : Equiv.swap i j k < n := by
  rw [Equiv.swap_apply_def]
  split_ifs <;> assumption

theorem words_exchange (hi : i < n) (hj : j < n) (f : ℕ → α) :
    (words n (exchange i j f)).Perm (words n f) := by
  have hrange : ((List.range n).map (Equiv.swap i j)).Perm (List.range n) := by
    refine (List.perm_ext_iff_of_nodup (List.nodup_range.map (Equiv.injective _))
      List.nodup_range).mpr fun k => ?_
    rw [List.mem_map, List.mem_range]
    constructor
    · rintro ⟨k, hk, rfl⟩
      exact swap_lt hi hj (List.mem_range.mp hk)
    · intro hk
      exact ⟨_, List.mem_range.mpr (swap_lt hi hj hk), Equiv.swap_apply_self i j k⟩
  rcases exchange_cases i j f with ⟨he, -⟩ | ⟨he, -⟩
  · rw [he]
  · rw [he, words, ← List.map_map]
    exact hrange.map f

/-- One exchange: what stands before `i` keeps its place, and the word at `i` becomes the least of
those looked at. -/
theorem exchange_step (hij : i < j) (hj : j < n) (hsettled : Settled n i f)
    (hleast : ∀ b, i < b → b < j → f i ≤ f b) :
    Settled n i (exchange i j f) ∧ ∀ b, i < b → b < j + 1 → exchange i j f i ≤ exchange i j f b := by
  rcases exchange_cases i j f with ⟨he, hle⟩ | ⟨he, hlt⟩
  · rw [he]
    refine ⟨hsettled, fun b hib hb => ?_⟩
    rcases Nat.lt_succ_iff_lt_or_eq.mp hb with hb | rfl
    · exact hleast b hib hb
    · exact hle
  · rw [he]
    refine ⟨fun a ha b hab hb => ?_, fun b hib hb => ?_⟩
    · have hbehind : a < Equiv.swap i j b ∧ Equiv.swap i j b < n := by
        rw [Equiv.swap_apply_def]
        split_ifs <;> omega
      show f (Equiv.swap i j a) ≤ f (Equiv.swap i j b)
      rw [Equiv.swap_apply_of_ne_of_ne (by omega) (by omega)]
      exact hsettled a ha _ hbehind.1 hbehind.2
    · show f (Equiv.swap i j i) ≤ f (Equiv.swap i j b)
      rw [Equiv.swap_apply_left, Equiv.swap_apply_def]
      split_ifs with hbi hbj
      · exact absurd hbi hib.ne'
      · exact hlt.le
      · exact hlt.le.trans (hleast b hib (by omega))

theorem inner_upto (hm : i + 1 + m ≤ n) (hsettled : Settled n i f) :
    (words n ((List.range' (i + 1) m).foldl (fun f j => exchange i j f) f)).Perm (words n f) ∧
      Settled n i ((List.range' (i + 1) m).foldl (fun f j => exchange i j f) f) ∧
      ∀ b, i < b → b < i + 1 + m →
        (List.range' (i + 1) m).foldl (fun f j => exchange i j f) f i ≤
          (List.range' (i + 1) m).foldl (fun f j => exchange i j f) f b := by
  induction m with
  | zero => exact ⟨List.Perm.refl _, hsettled, fun b hib hb => absurd hb (by omega)⟩
  | succ m ih =>
    obtain ⟨hperm, hsettled', hleast⟩ := ih (by omega)
    rw [List.range'_1_concat, List.foldl_append]
    exact ⟨(words_exchange (by omega) (by omega) _).trans hperm,
      exchange_step (by omega) (by omega) hsettled' hleast⟩

/-- **A row** puts the next word in its place. -/
theorem inner_spec (hi : i < n) (hsettled : Settled n i f) :
    (words n (inner n i f)).Perm (words n f) ∧ Settled n (i + 1) (inner n i f) := by
  obtain ⟨hperm, hsettled', hleast⟩ := inner_upto (m := n - (i + 1)) (by omega) hsettled
  refine ⟨hperm, fun a ha b hab hb => ?_⟩
  rcases Nat.lt_succ_iff_lt_or_eq.mp ha with ha | rfl
  · exact hsettled' a ha b hab hb
  · exact hleast b hab (by omega)

theorem sort_upto (hm : m ≤ n - 1) (f : ℕ → α) :
    (words n ((List.range m).foldl (fun f i => inner n i f) f)).Perm (words n f) ∧
      Settled n m ((List.range m).foldl (fun f i => inner n i f) f) := by
  induction m with
  | zero => exact ⟨List.Perm.refl _, fun a ha => absurd ha (Nat.not_lt_zero a)⟩
  | succ m ih =>
    obtain ⟨hperm, hsettled⟩ := ih (by omega)
    rw [List.range_succ, List.foldl_append]
    obtain ⟨hrow, hsettled'⟩ := inner_spec (by omega) hsettled
    exact ⟨hrow.trans hperm, hsettled'⟩

end

variable (n : ℕ) (f : ℕ → α)

theorem words_sort_perm : (words n (sort n f)).Perm (words n f) := (sort_upto le_rfl f).1

theorem words_sort_pairwise : (words n (sort n f)).Pairwise (· ≤ ·) := by
  refine List.pairwise_map.mpr (List.pairwise_lt_range.imp_of_mem fun {a b} _ hb hab => ?_)
  have hbn := List.mem_range.mp hb
  exact (sort_upto le_rfl f).2 a (by omega) b hab hbn

/-- **The loops sort the words.** -/
theorem words_sort : words n (sort n f) = (words n f).mergeSort (· ≤ ·) := by
  have hsorted : ((words n f).mergeSort (· ≤ ·)).Pairwise (· ≤ ·) := by
    exact (words n f).pairwise_mergeSort' (· ≤ ·)
  exact ((words_sort_perm n f).trans (List.mergeSort_perm _ _).symm).eq_of_pairwise'
    (words_sort_pairwise n f) hsorted

end ExchangeSort
