import Mathlib.Tactic
import Nomalloc.Cache.Lirs
import Nomalloc.Lib.Doubling

/-!
# Do the doubling loops end?

`next_power_of_two` (`utils/math.h`) and the choice of the hash table's size in `lirs_create` double
a 64-bit word until it reaches a bound; past `2^63` the word wraps to zero before it gets there.

* `nextPowerOfTwo_ends_iff`, `leastAbove_nextPowerOfTwo`   when it ends, and where;
* `hashSizeLoop_ends_iff`     the loop of `lirs_create`; 65 rounds are enough to see it end;
* `doubling_loops_iff`        both loops do what they are for exactly up to `2^63`.
-/

namespace Nomalloc

/-- The loop of `next_power_of_two`, for at most that many rounds. -/
def nextPowerLoop : ℕ → ℕ → ℕ → Option ℕ
  | 0, _, _ => none
  | n + 1, result, val =>
    if result < val then nextPowerLoop n (result <<< 1 % wordSize) val else some result

/-- `next_power_of_two`; `none` while the loop has not ended. -/
def nextPowerOfTwo (rounds val : ℕ) : Option ℕ :=
  if val = 0 then some 1
  else if isPowerOfTwo val then some val
  else nextPowerLoop rounds 1 val

section
variable {n r val bound capacity : ℕ}

theorem nextPowerLoop_eq (n r val : ℕ) : nextPowerLoop n r val = Doubling.loop 64 n r val := by
  induction n generalizing r with
  | zero => rfl
  | succ n ih =>
    unfold nextPowerLoop Doubling.loop
    rw [ih, Nat.shiftLeft_eq, pow_one]
    rfl

theorem hashSizeLoop_eq (n r bound : ℕ) : hashSizeLoop n r bound = Doubling.loop 64 n r bound := by
  induction n generalizing r with
  | zero => rfl
  | succ n ih =>
    unfold hashSizeLoop Doubling.loop
    rw [ih]
    rfl

theorem leastAbove_nextPowerOfTwo (h : nextPowerOfTwo n val = some r) :
    LeastAbove {p : ℕ | p.isPowerOfTwo} val r := by
  unfold nextPowerOfTwo at h
  split_ifs at h with h0 hpow
  · cases h
    refine ⟨⟨⟨0, rfl⟩, by omega⟩, ?_⟩
    rintro y ⟨⟨k, rfl⟩, -⟩
    exact Nat.one_le_two_pow
  · cases h
    exact ⟨⟨isPowerOfTwo_iff.mp hpow, le_rfl⟩, fun y hy => hy.2⟩
  · rw [nextPowerLoop_eq] at h
    exact Doubling.leastAbove_of_loop (by decide) h

theorem nextPowerOfTwo_ends_iff (hval : val < wordSize) :
    (∃ n r, nextPowerOfTwo n val = some r) ↔ val ≤ 2 ^ 63 := by
  by_cases h0 : val = 0
  · exact iff_of_true ⟨0, 1, if_pos h0⟩ (h0 ▸ Nat.zero_le _)
  by_cases hpow : isPowerOfTwo val = true
  · refine iff_of_true ⟨0, val, ?_⟩ (isPowerOfTwo_le hpow hval).2
    unfold nextPowerOfTwo
    rw [if_neg h0, if_pos hpow]
  · unfold nextPowerOfTwo
    simp only [h0, hpow, if_false, nextPowerLoop_eq]
    exact Doubling.loop_ends_iff (by decide)

/-- The loop of `lirs_create` ends within the rounds that `lirsCreate` gives it, or never. -/
theorem hashSizeLoop_ends_iff :
    (∃ n r, hashSizeLoop n 1 bound = some r) ↔ hashSizeLoop 65 1 bound ≠ none := by
  simp only [hashSizeLoop_eq]
  constructor
  · intro h
    obtain ⟨r, hr, -⟩ := Doubling.loop_leastAbove (by decide)
      ((Doubling.loop_ends_iff (by decide)).mp h)
    rw [Doubling.loop_mono hr (by decide : 64 ≤ 65)]
    exact Option.some_ne_none r
  · intro h
    obtain ⟨r, hr⟩ := Option.ne_none_iff_exists'.mp h
    exact ⟨65, r, hr⟩

end

/-- **The doubling loops.**  `next_power_of_two` ends exactly for the values up to `2^63`, with the
least power of two; the loop of `lirs_create` ends with a power of two that is at least twice the
capacity exactly for the capacities up to `2^62`. -/
theorem doubling_loops_iff {val : ℕ} (hval : val < wordSize) (capacity : ℕ) :
    ((∃ rounds r, nextPowerOfTwo rounds val = some r) ↔ val ≤ 2 ^ 63) ∧
      (∀ rounds r, nextPowerOfTwo rounds val = some r →
        LeastAbove {p : ℕ | p.isPowerOfTwo} val r) ∧
      ((∃ rounds size, hashSizeLoop rounds 1 (capacity * 2 % wordSize) = some size ∧
          size.isPowerOfTwo ∧ capacity * 2 ≤ size) ↔ capacity ≤ 2 ^ 62) := by
  refine ⟨nextPowerOfTwo_ends_iff hval, fun rounds r h => leastAbove_nextPowerOfTwo h, ?_, ?_⟩
  · rintro ⟨rounds, size, h, -, hle⟩
    rw [hashSizeLoop_eq] at h
    have hends := (Doubling.loop_ends_iff (by decide)).mp ⟨rounds, size, h⟩
    obtain ⟨⟨⟨k, rfl⟩, -⟩, hleast⟩ := Doubling.leastAbove_of_loop (by decide) h
    -- twice the capacity has not wrapped, or the size would be too small for it
    have hsize : 2 ^ k ≤ 2 ^ 63 := hleast ⟨⟨63, rfl⟩, hends⟩
    omega
  · intro h
    have hdouble : capacity * 2 % wordSize = capacity * 2 :=
      Nat.mod_eq_of_lt (by rw [wordSize_eq]; omega)
    rw [hdouble]
    have hword : capacity * 2 ≤ 2 ^ (64 - 1) := by omega
    obtain ⟨r, hr, hleast⟩ := Doubling.loop_leastAbove (by decide) hword
    exact ⟨64, r, (hashSizeLoop_eq ..).trans hr, hleast.mem, hleast.le⟩

theorem doubling_loops_five :
    ((∃ rounds r, nextPowerOfTwo rounds 5 = some r) ↔ 5 ≤ 2 ^ 63) ∧
      (∀ rounds r, nextPowerOfTwo rounds 5 = some r → LeastAbove {p : ℕ | p.isPowerOfTwo} 5 r) ∧
      ((∃ rounds size, hashSizeLoop rounds 1 (100 * 2 % wordSize) = some size ∧
          size.isPowerOfTwo ∧ 100 * 2 ≤ size) ↔ 100 ≤ 2 ^ 62) :=
  doubling_loops_iff (by decide) 100

/-- One more than `2^63` is never reached, nor is twice one more than `2^62`; and twice `2^63` wraps
to zero, for which a table of one bucket is enough. -/
theorem doubling_loops_wrap :
    2 ^ 63 + 1 < wordSize ∧ (∀ rounds, nextPowerOfTwo rounds (2 ^ 63 + 1) = none) ∧
      (∀ rounds, hashSizeLoop rounds 1 ((2 ^ 62 + 1) * 2 % wordSize) = none) ∧
      hashSizeLoop 65 1 (2 ^ 63 * 2 % wordSize) = some 1 := by
  refine ⟨by decide, fun rounds => ?_, fun rounds => ?_, by decide⟩
  · unfold nextPowerOfTwo
    rw [if_neg (by decide), if_neg (by decide), nextPowerLoop_eq]
    exact Doubling.loop_eq_none (e := 0) (by decide) (by decide)
  · rw [hashSizeLoop_eq]
    exact Doubling.loop_eq_none (e := 0) (by decide) (by decide)

end Nomalloc
