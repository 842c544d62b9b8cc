import Mathlib.Tactic

/-!
# Machine words and `utils/math.h`

A `size_t`, `uintptr_t` or `uint64_t` value is a natural number below `2^64`; where an operation
of the source can leave that range it is written with `addW`, `subW`, which wrap.

* `addW`, `subW`      addition and subtraction of 64-bit words;
* `alignUp`           `align_up` (`utils/math.h`), with its wrapping additions;
* `isPowerOfTwo`      `is_power_of_two`.

`alignUp_eq` is the value where nothing wraps, `alignUp_wraps` where it does; `alignUp_le`,
`le_alignUp`, `dvd_alignUp` are the facts that callers use, and `alignUp_eq_iff` says that the value
is the least multiple.
-/

namespace Nomalloc

/-- `2^64` -/
def wordSize : ℕ := 2^64

theorem wordSize_eq : wordSize = 18446744073709551616 := rfl

/-- 64-bit addition -/
def addW (a b : ℕ) : ℕ := (a + b) % wordSize

/-- 64-bit subtraction -/
def subW (a b : ℕ) : ℕ := (a + (wordSize - b)) % wordSize

theorem addW_eq {a b : ℕ} (h : a + b < wordSize) : addW a b = a + b := Nat.mod_eq_of_lt h

theorem addW_wrap {a b : ℕ} (h : wordSize ≤ a + b) (hlt : a + b < 2 * wordSize) :
    addW a b = a + b - wordSize := by
  unfold addW
  rw [Nat.mod_eq_sub_mod h, Nat.mod_eq_of_lt (by omega)]

theorem addW_lt (a b : ℕ) : addW a b < wordSize := Nat.mod_lt _ (by decide)

theorem subW_eq {a b : ℕ} (hb : b ≤ a) (ha : a < wordSize) : subW a b = a - b := by
  unfold subW
  rw [show a + (wordSize - b) = a - b + wordSize by omega, Nat.add_mod_right]
  exact Nat.mod_eq_of_lt (by omega)

theorem subW_wrap {a b : ℕ} (h : a < b) (hb : b ≤ wordSize) : subW a b = a + (wordSize - b) :=
  Nat.mod_eq_of_lt (by omega)

theorem subW_lt (a b : ℕ) : subW a b < wordSize := Nat.mod_lt _ (by decide)

theorem addW_modEq (a b : ℕ) : addW a b ≡ a + b [MOD wordSize] := Nat.mod_modEq _ _

theorem subW_modEq (a : ℕ) {b : ℕ} (hb : b ≤ wordSize) : subW a b + b ≡ a [MOD wordSize] := by
  unfold subW Nat.ModEq
  rw [Nat.mod_add_mod, show a + (wordSize - b) + b = a + wordSize by omega, Nat.add_mod_right]

/-- `align_up`: round `val` up to a multiple of `alignment`, in 64-bit arithmetic. -/
def alignUp (val alignment : ℕ) : ℕ :=
  if alignment = 0 then val
  else subW (addW val alignment) 1 / alignment * alignment % wordSize

/-- `is_power_of_two` -/
def isPowerOfTwo (val : ℕ) : Bool := val != 0 && (val &&& (val - 1)) == 0

/-- `val + al - 1` where that does not wrap. -/
theorem subW_addW_one {val al : ℕ} (hal : 0 < al) (h : val + al - 1 < wordSize) :
    subW (addW val al) 1 = val + al - 1 := by
  rcases Nat.lt_or_ge (val + al) wordSize with hlt | hge
  · rw [addW_eq hlt, subW_eq (by omega) hlt]
  · -- the sum is exactly `2^64`: it wraps to zero and the subtraction wraps back
    have he : val + al = wordSize := by omega
    unfold addW subW
    rw [he, Nat.mod_self]
    exact Nat.mod_eq_of_lt (by rw [wordSize_eq]; omega)

/-- `align_up` where `val + alignment - 1` does not wrap. -/
theorem alignUp_eq {val al : ℕ} (hal : 0 < al) (h : val + al - 1 < wordSize) :
    alignUp val al = (val + al - 1) / al * al := by
  unfold alignUp
  rw [if_neg (by omega), subW_addW_one hal h]
  exact Nat.mod_eq_of_lt (Nat.lt_of_le_of_lt (Nat.div_mul_le_self _ _) h)

theorem le_alignUp {val al : ℕ} (hal : 0 < al) (h : val + al - 1 < wordSize) :
    val ≤ alignUp val al := by
  rw [alignUp_eq hal h]
  have h1 := Nat.div_add_mod (val + al - 1) al
  have h2 := Nat.mod_lt (val + al - 1) hal
  rw [Nat.mul_comm] at h1
  omega

theorem alignUp_le {val al : ℕ} (hal : 0 < al) (h : val + al - 1 < wordSize) :
    alignUp val al ≤ val + al - 1 := by
  rw [alignUp_eq hal h]
  exact Nat.div_mul_le_self _ _

theorem dvd_alignUp {val al : ℕ} (hal : 0 < al) (h : val + al - 1 < wordSize) :
    al ∣ alignUp val al := by
  rw [alignUp_eq hal h]
  exact Nat.dvd_mul_left al _

/-- Past the end of the words it is zero. -/
theorem alignUp_wraps {val al : ℕ} (hval : val < wordSize) (hal : al < wordSize)
    (h : wordSize ≤ val + al - 1) : alignUp val al = 0 := by
  have hsum : subW (addW val al) 1 < al := by
    unfold addW subW wordSize at *
    omega
  unfold alignUp
  rw [if_neg (by omega), Nat.div_eq_of_lt hsum, Nat.zero_mul, Nat.zero_mod]

/-- An alignment that divides `2^64` divides the result, wrapped or not. -/
theorem dvd_alignUp_of_dvd {val al : ℕ} (hal : 0 < al) (h : al ∣ wordSize) :
    al ∣ alignUp val al := by
  unfold alignUp
  rw [if_neg (by omega)]
  exact (Nat.dvd_mod_iff h).mpr (Nat.dvd_mul_left al _)

theorem alignUp_least {val al y : ℕ} (hpos : 0 < al) (hlt : val + al - 1 < wordSize)
    (hle : val ≤ y) (hd : al ∣ y) : alignUp val al ≤ y := by
  rw [alignUp_eq hpos hlt]
  obtain ⟨k, rfl⟩ := hd
  have hdiv : (val + al - 1) / al ≤ k := by
    rw [Nat.div_le_iff_le_mul_add_pred hpos]
    omega
  calc (val + al - 1) / al * al ≤ k * al := Nat.mul_le_mul_right al hdiv
    _ = al * k := Nat.mul_comm k al

/-- The least multiple is known by its place. -/
theorem alignUp_eq_iff {val al y : ℕ} (hpos : 0 < al) (hlt : val + al - 1 < wordSize)
    (hd : al ∣ y) : alignUp val al = y ↔ val ≤ y ∧ y < val + al := by
  constructor
  · rintro rfl
    have hle := alignUp_le hpos hlt
    exact ⟨le_alignUp hpos hlt, by omega⟩
  · rintro ⟨hle, hup⟩
    refine Nat.le_antisymm (alignUp_least hpos hlt hle hd) ?_
    -- a smaller multiple would be `al` below
    obtain ⟨k, hk⟩ := dvd_alignUp hpos hlt
    obtain ⟨n, rfl⟩ := hd
    have hval := le_alignUp hpos hlt
    rw [hk] at hval ⊢
    have hkn : n < k + 1 := Nat.lt_of_mul_lt_mul_left (a := al) (by rw [Nat.mul_add]; omega)
    exact Nat.mul_le_mul_left al (Nat.le_of_lt_succ hkn)

theorem alignUp_of_dvd {val al : ℕ} (hpos : 0 < al) (hd : al ∣ val)
    (hlt : val + al - 1 < wordSize) : alignUp val al = val :=
  (alignUp_eq_iff hpos hlt hd).mpr ⟨le_rfl, Nat.lt_add_of_pos_right hpos⟩

theorem alignUp_eq_self_iff {val al : ℕ} (hpos : 0 < al) (hlt : val + al - 1 < wordSize) :
    alignUp val al = val ↔ al ∣ val :=
  ⟨fun h => h ▸ dvd_alignUp hpos hlt, fun hd => alignUp_of_dvd hpos hd hlt⟩

theorem alignUp_add_self {val al : ℕ} (hpos : 0 < al) (hlt : val + al + al - 1 < wordSize) :
    alignUp (val + al) al = alignUp val al + al := by
  rw [alignUp_eq hpos hlt, alignUp_eq hpos (by omega),
    show val + al + al - 1 = val + al - 1 + al by omega, Nat.add_div_right _ hpos, Nat.succ_mul]

theorem isPowerOfTwo_iff {val : ℕ} : isPowerOfTwo val = true ↔ val.isPowerOfTwo := by
  unfold isPowerOfTwo
  rw [Bool.and_eq_true, bne_iff_ne, beq_iff_eq]
  exact Nat.ne_zero_and_sub_one_eq_zero_iff_isPowerOfTwo

/-- The largest power of two in a word is `2^63`. -/
theorem isPowerOfTwo_le {val : ℕ} (h : isPowerOfTwo val = true) (hval : val < wordSize) :
    0 < val ∧ val ≤ 2 ^ 63 := by
  obtain ⟨k, rfl⟩ := isPowerOfTwo_iff.1 h
  have hk : k < 64 := (Nat.pow_lt_pow_iff_right (by decide)).1 hval
  exact ⟨Nat.two_pow_pos k, Nat.pow_le_pow_right (by decide) (by omega)⟩

/-- Of two powers of two one divides the other. -/
theorem dvd_or_dvd_of_isPowerOfTwo {a b : ℕ} (ha : isPowerOfTwo a = true)
    (hb : isPowerOfTwo b = true) : a ∣ b ∨ b ∣ a := by
  obtain ⟨i, rfl⟩ := isPowerOfTwo_iff.mp ha
  obtain ⟨j, rfl⟩ := isPowerOfTwo_iff.mp hb
  exact (Nat.le_total i j).imp (pow_dvd_pow 2) (pow_dvd_pow 2)

theorem isPowerOfTwo_pos {a : ℕ} (ha : isPowerOfTwo a = true) : 0 < a := by
  obtain ⟨i, rfl⟩ := isPowerOfTwo_iff.mp ha
  exact Nat.two_pow_pos i

/-- A multiple of a power of two that is below `2^64` leaves room for one more. -/
theorem add_le_wordSize_of_dvd {val al : ℕ} (hal : isPowerOfTwo al = true) (hlt : al < wordSize)
    (hd : al ∣ val) (hval : val < wordSize) : val + al ≤ wordSize := by
  have hword : al ∣ wordSize := by
    obtain ⟨i, rfl⟩ := isPowerOfTwo_iff.mp hal
    exact pow_dvd_pow 2 ((Nat.pow_lt_pow_iff_right (by decide)).1 hlt).le
  obtain ⟨k, rfl⟩ := hd
  obtain ⟨n, hn⟩ := hword
  rw [hn] at hval ⊢
  have hkn : k + 1 ≤ n := Nat.lt_of_mul_lt_mul_left hval
  calc al * k + al = al * (k + 1) := by ring
    _ ≤ al * n := Nat.mul_le_mul_left al hkn

end Nomalloc
