import Mathlib.Data.Nat.Digits.Defs
import Mathlib.Data.Nat.Factorization.Basic
import Mathlib.Order.Bounds.Basic

/-!
# The powers of two around a number

A number that is not zero has a greatest power of two below it and a greatest one dividing it.  The
first stands for its highest bit, the second for its lowest; they are the same exactly when the
number is a power of two, which is when its binary digits add up to one.

* `isGreatest_le`, `isGreatest_dvd`   what the two are;
* `isPowerOfTwo_iff_eq`               when they are the same;
* `log2_clear`                        clearing the lowest bit leaves the highest one;
* `digits_sum_eq_one`                 the binary digits of powers of two.
-/

namespace Powers

variable {v m t p q : ℕ}

theorem isGreatest_le (hv : v ≠ 0) : IsGreatest {p : ℕ | p.isPowerOfTwo ∧ p ≤ v} (2 ^ v.log2) := by
  refine ⟨⟨⟨v.log2, rfl⟩, Nat.log2_self_le hv⟩, ?_⟩
  rintro p ⟨⟨k, rfl⟩, hle⟩
  exact Nat.pow_le_pow_right Nat.two_pos ((Nat.le_log2 hv).mpr hle)

theorem isGreatest_dvd (hm : Odd m) :
    IsGreatest {p : ℕ | p.isPowerOfTwo ∧ p ∣ 2 ^ t * m} (2 ^ t) := by
  refine ⟨⟨⟨t, rfl⟩, Nat.dvd_mul_right _ _⟩, ?_⟩
  rintro p ⟨⟨k, rfl⟩, hdvd⟩
  have hcoprime : Nat.Coprime (2 ^ k) m := Nat.Coprime.pow_left k (Nat.coprime_two_left.mpr hm)
  exact Nat.le_of_dvd (Nat.two_pow_pos t) (hcoprime.dvd_of_dvd_mul_right hdvd)

theorem isPowerOfTwo_iff_eq (hv : v ≠ 0) (hp : IsGreatest {p : ℕ | p.isPowerOfTwo ∧ p ≤ v} p)
    (hq : IsGreatest {p : ℕ | p.isPowerOfTwo ∧ p ∣ v} q) : v.isPowerOfTwo ↔ p = q := by
  constructor
  · intro hpow
    have h1 : p = v := Nat.le_antisymm hp.1.2 (hp.2 ⟨hpow, le_rfl⟩)
    have h2 : q = v := Nat.le_antisymm (Nat.le_of_dvd (Nat.pos_of_ne_zero hv) hq.1.2)
      (hq.2 ⟨hpow, dvd_rfl⟩)
    rw [h1, h2]
  · rintro rfl
    obtain ⟨⟨⟨k, rfl⟩, -⟩, hgreatest⟩ := hp
    obtain ⟨j, rfl⟩ := hq.1.2
    -- twice the power would still be below
    have hj : j < 2 := by
      by_contra hge
      have htwice : 2 ^ (k + 1) ≤ 2 ^ k := hgreatest ⟨⟨k + 1, rfl⟩, by
        rw [pow_succ]
        exact Nat.mul_le_mul_left _ (not_lt.mp hge)⟩
      exact absurd htwice (not_le.mpr (Nat.pow_lt_pow_right Nat.one_lt_two (Nat.lt_succ_self k)))
    have hj1 : j = 1 := by
      rcases Nat.eq_zero_or_pos j with rfl | hpos
      · exact absurd (Nat.mul_zero _) hv
      · omega
    exact ⟨k, by rw [hj1, Nat.mul_one]⟩

/-- Clearing the lowest bit leaves the highest one, if there are two. -/
theorem log2_clear (h : v &&& (v - 1) ≠ 0) : (v &&& (v - 1)).log2 = v.log2 := by
  have hv : v ≠ 0 := fun he => h (by rw [he, Nat.zero_and])
  have hpow : ¬ v.isPowerOfTwo := fun hpow => h ((Nat.and_sub_one_eq_zero_iff_isPowerOfTwo hv).mpr hpow)
  have htop := Nat.ge_two_pow_of_testBit (Nat.and_sub_one_testBit_log2 hv hpow)
  exact (Nat.log2_eq_iff h).mpr ⟨htop, Nat.and_le_left.trans_lt Nat.lt_log2_self⟩

theorem digits_sum_eq_zero : (Nat.digits 2 v).sum = 0 ↔ v = 0 := by
  induction v using Nat.strong_induction_on with
  | _ v ih =>
    rcases Nat.eq_zero_or_pos v with rfl | hpos
    · simp
    · rw [Nat.digits_def' Nat.one_lt_two hpos, List.sum_cons, Nat.add_eq_zero_iff,
        ih (v / 2) (by omega)]
      omega

theorem digits_sum_eq_one : (Nat.digits 2 v).sum = 1 ↔ v.isPowerOfTwo := by
  induction v using Nat.strong_induction_on with
  | _ v ih =>
    rcases Nat.eq_zero_or_pos v with rfl | hpos
    · exact iff_of_false (by simp) Nat.not_isPowerOfTwo_zero
    rw [Nat.digits_def' Nat.one_lt_two hpos, List.sum_cons]
    rcases Nat.mod_two_eq_zero_or_one v with hmod | hmod
    · rw [hmod, Nat.zero_add, ih (v / 2) (by omega)]
      constructor
      · rintro ⟨k, hk⟩
        exact ⟨k + 1, by omega⟩
      · rintro ⟨k, hk⟩
        cases k with
        | zero => omega
        | succ k => exact ⟨k, by omega⟩
    · have hzero := digits_sum_eq_zero (v := v / 2)
      constructor
      · intro hsum
        exact ⟨0, by omega⟩
      · rintro ⟨k, hk⟩
        cases k with
        | zero => omega
        | succ k => omega

end Powers
