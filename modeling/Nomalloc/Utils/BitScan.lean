import Mathlib.Data.Nat.Bitwise
import Mathlib.Tactic
import Nomalloc.Lib.Powers
import Nomalloc.Utils.Math

/-!
# The bit scans of `utils/math.h`

Six loops look for the highest bit of a word, the lowest one, or the number of bits: by clearing low
bits, by shifting the word to the right, or by moving a mask to the right.

* `prevPowerLoop_eq`, `log2Loop_eq`, `clzLoop_eq`   three find the highest bit;
* `ctzLoop_eq`                                      one the lowest;
* `popcountLoop_eq`                                 one adds up the binary digits;
* `bit_scans_agree`                                 so they agree on every word but zero.

A loop whose word or mask has become zero does not end; its value is then `none`.
-/

namespace Nomalloc

/-- The loop of `prev_power_of_two`. -/
def prevPowerLoop (result : ℕ) : ℕ :=
  if result &&& (result - 1) ≠ 0 then prevPowerLoop (result &&& (result - 1)) else result
termination_by result
decreasing_by
  have hne : result ≠ 0 := fun he => by simp_all
  have hle : result &&& (result - 1) ≤ result - 1 := Nat.and_le_right
  omega

/-- `prev_power_of_two` -/
def prevPowerOfTwo (val : ℕ) : ℕ := if val = 0 then 0 else prevPowerLoop val

/-- The loop of `log2_u64`. -/
def log2Loop (val result : ℕ) : ℕ :=
  if val >>> 1 ≠ 0 then log2Loop (val >>> 1) (result + 1) else result
termination_by val
decreasing_by
  rw [Nat.shiftRight_eq_div_pow] at *
  omega

/-- `log2_u64` -/
def log2U64 (val : ℕ) : ℕ := if val = 0 then 0 else log2Loop val 0

/-- The loop of `popcount_u64`. -/
def popcountLoop (val count : ℕ) : ℕ :=
  if val ≠ 0 then popcountLoop (val >>> 1) (count + (val &&& 1)) else count
termination_by val
decreasing_by
  rw [Nat.shiftRight_eq_div_pow]
  omega

/-- `popcount_u64` -/
def popcountU64 (val : ℕ) : ℕ := popcountLoop val 0

/-- The loop of `count_trailing_zeros_u64`. -/
def ctzLoop (val count : ℕ) : Option ℕ :=
  if val &&& 1 ≠ 0 then some count
  else if val = 0 then none
  else ctzLoop (val >>> 1) (count + 1)
termination_by val
decreasing_by
  rw [Nat.shiftRight_eq_div_pow]
  omega

/-- `count_trailing_zeros_u64` -/
def countTrailingZerosU64 (val : ℕ) : Option ℕ := if val = 0 then some 64 else ctzLoop val 0

/-- The loop of `count_leading_zeros_u64`. -/
def clzLoop (val mask count : ℕ) : Option ℕ :=
  if val &&& mask ≠ 0 then some count
  else if mask = 0 then none
  else clzLoop val (mask >>> 1) (count + 1)
termination_by mask
decreasing_by
  rw [Nat.shiftRight_eq_div_pow]
  omega

/-- `count_leading_zeros_u64` -/
def countLeadingZerosU64 (val : ℕ) : Option ℕ :=
  if val = 0 then some 64 else clzLoop val (1 <<< 63) 0

section
variable {v k m t count : ℕ}

theorem prevPowerLoop_eq (hv : v ≠ 0) : prevPowerLoop v = 2 ^ v.log2 := by
  induction v using Nat.strong_induction_on with
  | _ v ih =>
    rw [prevPowerLoop]
    by_cases h : v &&& (v - 1) = 0
    · rw [if_neg (not_not.mpr h)]
      obtain ⟨k, rfl⟩ := (Nat.and_sub_one_eq_zero_iff_isPowerOfTwo hv).mp h
      rw [Nat.log2_two_pow]
    · have hlt : v &&& (v - 1) < v := Nat.and_le_right.trans_lt (Nat.sub_one_lt hv)
      rw [if_pos h, ih _ hlt h, Powers.log2_clear h]

theorem log2Loop_eq (v count : ℕ) : log2Loop v count = count + v.log2 := by
  induction v using Nat.strong_induction_on generalizing count with
  | _ v ih =>
    rw [log2Loop, Nat.shiftRight_eq_div_pow, pow_one, Nat.log2_def]
    by_cases h : 2 ≤ v
    · rw [if_pos (by omega), if_pos h, ih (v / 2) (by omega)]
      omega
    · rw [if_neg (by omega), if_neg h, Nat.add_zero]

theorem popcountLoop_eq (v count : ℕ) : popcountLoop v count = count + (Nat.digits 2 v).sum := by
  induction v using Nat.strong_induction_on generalizing count with
  | _ v ih =>
    rw [popcountLoop]
    rcases Nat.eq_zero_or_pos v with rfl | hpos
    · simp
    · rw [if_pos hpos.ne', Nat.shiftRight_eq_div_pow, pow_one, ih (v / 2) (by omega),
        Nat.and_one_is_mod, Nat.digits_def' Nat.one_lt_two hpos, List.sum_cons, Nat.add_assoc]

theorem ctzLoop_eq (hm : Odd m) (t count : ℕ) : ctzLoop (2 ^ t * m) count = some (count + t) := by
  induction t generalizing count with
  | zero =>
    rw [ctzLoop, pow_zero, Nat.one_mul, Nat.and_one_is_mod, Nat.odd_iff.mp hm]
    rfl
  | succ t ih =>
    have hpos : 2 ^ (t + 1) * m ≠ 0 := Nat.mul_ne_zero (Nat.two_pow_pos _).ne' hm.pos.ne'
    have hdouble : 2 ^ (t + 1) * m = 2 * (2 ^ t * m) := by ring
    rw [ctzLoop, Nat.and_one_is_mod, if_neg (by omega), if_neg hpos, Nat.shiftRight_eq_div_pow,
      pow_one, hdouble, Nat.mul_div_cancel_left _ Nat.two_pos, ih]
    exact congrArg some (by omega)

/-- With the mask on bit `k` and no bit above it. -/
theorem clzLoop_eq (hv : v ≠ 0) (hlt : v < 2 ^ (k + 1)) (count : ℕ) :
    clzLoop v (2 ^ k) count = some (count + (k - v.log2)) := by
  induction k generalizing count with
  | zero =>
    obtain rfl : v = 1 := by omega
    rw [clzLoop]
    rfl
  | succ k ih =>
    rw [clzLoop, Nat.and_two_pow]
    rcases Nat.lt_or_ge v (2 ^ (k + 1)) with hbelow | habove
    · have hlog : v.log2 < k + 1 := (Nat.log2_lt hv).mpr hbelow
      rw [Nat.testBit_lt_two_pow hbelow, Bool.toNat_false, Nat.zero_mul, if_neg (by simp),
        if_neg (Nat.two_pow_pos _).ne', Nat.shiftRight_eq_div_pow, pow_one, pow_succ,
        Nat.mul_div_cancel _ Nat.two_pos, ih hbelow]
      exact congrArg some (by omega)
    · have hlog : v.log2 = k + 1 := (Nat.log2_eq_iff hv).mpr ⟨habove, hlt⟩
      have hbit : v.testBit (k + 1) = true := hlog ▸ Nat.testBit_log2 hv
      rw [hbit, Bool.toNat_true, Nat.one_mul, if_pos (Nat.two_pow_pos _).ne', hlog, Nat.sub_self]
      rfl

end

/-- **The bit scans agree.**  The loops end on every word but zero; the highest bit is found three
times and gives the greatest power of two below, the lowest one gives the greatest that divides, and
they are the same for the powers of two, which have one bit. -/
theorem bit_scans_agree {v : ℕ} (h0 : v ≠ 0) (hv : v < wordSize) :
    ∃ leading trailing, countLeadingZerosU64 v = some leading ∧
      countTrailingZerosU64 v = some trailing ∧
      prevPowerOfTwo v = 2 ^ log2U64 v ∧
      (leading ≤ 63 ∧ prevPowerOfTwo v = 2 ^ (63 - leading)) ∧
      IsGreatest {p : ℕ | p.isPowerOfTwo ∧ p ≤ v} (prevPowerOfTwo v) ∧
      IsGreatest {p : ℕ | p.isPowerOfTwo ∧ p ∣ v} (2 ^ trailing) ∧
      (isPowerOfTwo v = true ↔ log2U64 v = trailing) ∧
      (isPowerOfTwo v = true ↔ popcountU64 v = 1) := by
  obtain ⟨t, m, hm, hvm⟩ := Nat.exists_eq_two_pow_mul_odd h0
  have hlog : log2U64 v = v.log2 := by
    unfold log2U64
    rw [if_neg h0, log2Loop_eq, Nat.zero_add]
  have hprev : prevPowerOfTwo v = 2 ^ v.log2 := (if_neg h0).trans (prevPowerLoop_eq h0)
  have hleading : countLeadingZerosU64 v = some (63 - v.log2) := by
    unfold countLeadingZerosU64
    rw [if_neg h0, Nat.one_shiftLeft, clzLoop_eq h0 hv, Nat.zero_add]
  have htrailing : countTrailingZerosU64 v = some t := by
    unfold countTrailingZerosU64
    rw [if_neg h0, hvm, ctzLoop_eq hm, Nat.zero_add]
  have htop : v.log2 < 64 := (Nat.log2_lt h0).mpr hv
  have hgreatest := Powers.isGreatest_le h0
  have hdvd : IsGreatest {p : ℕ | p.isPowerOfTwo ∧ p ∣ v} (2 ^ t) := hvm ▸ Powers.isGreatest_dvd hm
  refine ⟨63 - v.log2, t, hleading, htrailing, ?_, ⟨Nat.sub_le _ _, ?_⟩, ?_, hdvd, ?_, ?_⟩
  · rw [hprev, hlog]
  · rw [hprev, Nat.sub_sub_self (by omega)]
  · rwa [hprev]
  · rw [isPowerOfTwo_iff, Powers.isPowerOfTwo_iff_eq h0 hgreatest hdvd, hlog]
    exact ⟨fun he => Nat.pow_right_injective le_rfl he, fun he => he ▸ rfl⟩
  · rw [isPowerOfTwo_iff, popcountU64, popcountLoop_eq, Nat.zero_add, Powers.digits_sum_eq_one]

/-- `0b101000` -/
theorem bit_scans_agree_forty :
    ∃ leading trailing, countLeadingZerosU64 40 = some leading ∧
      countTrailingZerosU64 40 = some trailing ∧
      prevPowerOfTwo 40 = 2 ^ log2U64 40 ∧
      (leading ≤ 63 ∧ prevPowerOfTwo 40 = 2 ^ (63 - leading)) ∧
      IsGreatest {p : ℕ | p.isPowerOfTwo ∧ p ≤ 40} (prevPowerOfTwo 40) ∧
      IsGreatest {p : ℕ | p.isPowerOfTwo ∧ p ∣ 40} (2 ^ trailing) ∧
      (isPowerOfTwo 40 = true ↔ log2U64 40 = trailing) ∧
      (isPowerOfTwo 40 = true ↔ popcountU64 40 = 1) :=
  bit_scans_agree (by decide) (by decide)

end Nomalloc
