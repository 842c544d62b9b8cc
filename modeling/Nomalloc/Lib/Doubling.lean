import Mathlib.Algebra.Group.Nat.Even
import Mathlib.Data.Nat.Log
import Nomalloc.Lib.LeastAbove

/-!
# Doubling a word

A loop doubles a `w`-bit word until it reaches a bound.  The word is a power of two until it wraps
to zero, where it stays.

* `loop_leastAbove`    the loop ends at the least power of two that reaches the bound, if the word
                       can hold it;
* `loop_eq_none`       it does not end, if not.
-/

namespace Doubling

/-- `rounds` rounds of the loop at most; `none` if it has not ended. -/
def loop (w : ℕ) : ℕ → ℕ → ℕ → Option ℕ
  | 0, _, _ => none
  | n + 1, r, bound => if r < bound then loop w n (r * 2 % 2 ^ w) bound else some r

variable {w n e k r bound : ℕ}

/-- From a power of two the loop goes on to the first that reaches the bound. -/
theorem loop_eq (hk : k < w) (hbound : bound ≤ 2 ^ k) (hbelow : ∀ j < k, 2 ^ j < bound)
    (he : e ≤ k) (hn : k - e < n) : loop w n (2 ^ e) bound = some (2 ^ k) := by
  induction n generalizing e with
  | zero => exact absurd hn (Nat.not_lt_zero _)
  | succ n ih =>
    unfold loop
    rcases Nat.eq_or_lt_of_le he with rfl | hlt
    · rw [if_neg (not_lt.mpr hbound)]
    · have hfits : 2 ^ e * 2 % 2 ^ w = 2 ^ (e + 1) := by
        rw [← pow_succ]
        exact Nat.mod_eq_of_lt (Nat.pow_lt_pow_right Nat.one_lt_two (by omega))
      rw [if_pos (hbelow e hlt), hfits]
      exact ih hlt (by omega)

/-- **Where the loop ends.** -/
theorem loop_leastAbove (hw : 0 < w) (hbound : bound ≤ 2 ^ (w - 1)) :
    ∃ r, loop w w 1 bound = some r ∧ LeastAbove {p : ℕ | p.isPowerOfTwo} bound r := by
  have hclog : Nat.clog 2 bound ≤ w - 1 := (Nat.clog_le_iff_le_pow Nat.one_lt_two).mpr hbound
  have hreach : bound ≤ 2 ^ Nat.clog 2 bound := (Nat.clog_le_iff_le_pow Nat.one_lt_two).mp le_rfl
  refine ⟨2 ^ Nat.clog 2 bound, ?_, ⟨⟨_, rfl⟩, hreach⟩, ?_⟩
  · exact loop_eq (e := 0) (by omega) hreach
      (fun j hj => (Nat.lt_clog_iff_pow_lt Nat.one_lt_two).mp hj) (Nat.zero_le _) (by omega)
  · rintro y ⟨⟨j, rfl⟩, hy⟩
    exact Nat.pow_le_pow_right Nat.two_pos ((Nat.clog_le_iff_le_pow Nat.one_lt_two).mpr hy)

/-- The word is never back from zero. -/
theorem loop_zero (hbound : 0 < bound) : loop w n 0 bound = none := by
  induction n with
  | zero => rfl
  | succ n ih =>
    unfold loop
    rw [if_pos hbound, Nat.zero_mul, Nat.zero_mod]
    exact ih

/-- **Where it does not end.** -/
theorem loop_eq_none (hbound : 2 ^ (w - 1) < bound) (he : e < w) : loop w n (2 ^ e) bound = none := by
  induction n generalizing e with
  | zero => rfl
  | succ n ih =>
    have hlt : 2 ^ e < bound := by
      have hle : 2 ^ e ≤ 2 ^ (w - 1) := Nat.pow_le_pow_right Nat.two_pos (by omega)
      exact hle.trans_lt hbound
    unfold loop
    rw [if_pos hlt, ← pow_succ]
    rcases Nat.lt_or_ge (e + 1) w with hfits | hwraps
    · rw [Nat.mod_eq_of_lt (Nat.pow_lt_pow_right Nat.one_lt_two hfits)]
      exact ih hfits
    · rw [show e + 1 = w by omega, Nat.mod_self]
      exact loop_zero (Nat.zero_lt_of_lt hbound)

theorem loop_mono {m : ℕ} (h : loop w n r bound = some k) (hnm : n ≤ m) :
    loop w m r bound = some k := by
  induction n generalizing m r with
  | zero => exact absurd h (by simp [loop])
  | succ n ih =>
    obtain ⟨m, rfl⟩ := Nat.exists_eq_add_of_le hnm
    rw [show n + 1 + m = (n + m) + 1 by omega]
    unfold loop at h ⊢
    split_ifs at h ⊢ with hlt
    · exact ih h (by omega)
    · exact h

/-- The loop ends exactly when the word can hold a power of two that reaches the bound. -/
theorem loop_ends_iff (hw : 0 < w) :
    (∃ n r, loop w n 1 bound = some r) ↔ bound ≤ 2 ^ (w - 1) := by
  constructor
  · rintro ⟨n, r, h⟩
    by_contra hno
    rw [show (1 : ℕ) = 2 ^ 0 from rfl, loop_eq_none (not_le.mp hno) hw] at h
    cases h
  · intro h
    obtain ⟨r, hr, -⟩ := loop_leastAbove hw h
    exact ⟨w, r, hr⟩

theorem leastAbove_of_loop (hw : 0 < w) (h : loop w n 1 bound = some r) :
    LeastAbove {p : ℕ | p.isPowerOfTwo} bound r := by
  obtain ⟨r', hr', hleast⟩ := loop_leastAbove hw ((loop_ends_iff hw).mp ⟨n, r, h⟩)
  have h1 := loop_mono h (Nat.le_max_left n w)
  rw [loop_mono hr' (Nat.le_max_right n w)] at h1
  rwa [Option.some.inj h1] at hleast

end Doubling
