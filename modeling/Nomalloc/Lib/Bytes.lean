import Mathlib.Tactic

/-!
# Byte memory

A memory gives every address its byte.

* `load m a k`       the `k`-byte little-endian number at `a`;
* `store m a k v`    `v` written there;
* `fill`, `copy`     `memset` and `memcpy` (the source is read before anything is written);
* `SameOn m m' a k`  the two memories agree on the `k` bytes from `a`.

A read depends only on its own bytes (`load_congr`), a write touches only its own
(`store_outside`, `fill_outside`, `copy_outside`), and what was stored is loaded (`load_store`).
-/

namespace Bytes

/-- A memory. -/
abbrev Mem := ℕ → UInt8

/-- The `k`-byte little-endian number at `a`. -/
def load (m : Mem) : ℕ → ℕ → ℕ
  | _, 0 => 0
  | a, k + 1 => (m a).toNat + 256 * load m (a + 1) k

/-- Write the low `k` bytes of `v` at `a`, little-endian. -/
def store (m : Mem) (a k v : ℕ) : Mem := fun x =>
  if a ≤ x ∧ x < a + k then UInt8.ofNat (v / 256 ^ (x - a)) else m x

/-- `memset` -/
def fill (m : Mem) (a k : ℕ) (b : UInt8) : Mem := fun x =>
  if a ≤ x ∧ x < a + k then b else m x

/-- `memcpy` -/
def copy (m : Mem) (dst src k : ℕ) : Mem := fun x =>
  if dst ≤ x ∧ x < dst + k then m (src + (x - dst)) else m x

/-- The two memories agree on `[a, a + k)`. -/
def SameOn (m m' : Mem) (a k : ℕ) : Prop := ∀ x, a ≤ x → x < a + k → m' x = m x

variable {m m' m'' : Mem} {a b k n v x : ℕ}

theorem SameOn.refl (m : Mem) (a k : ℕ) : SameOn m m a k := fun _ _ _ => rfl

theorem SameOn.sub (h : SameOn m m' a k) (hb : a ≤ b) (hn : b + n ≤ a + k) : SameOn m m' b n :=
  fun x hx hx' => h x (by omega) (by omega)

/-! ## loads -/

theorem load_congr (h : SameOn m m' a k) : load m' a k = load m a k := by
  induction k generalizing a with
  | zero => rfl
  | succ k ih =>
    show (m' a).toNat + 256 * load m' (a + 1) k = (m a).toNat + 256 * load m (a + 1) k
    rw [h a le_rfl (by omega), ih (h.sub (by omega) (by omega))]

theorem load_lt (m : Mem) (a k : ℕ) : load m a k < 256 ^ k := by
  induction k generalizing a with
  | zero => exact Nat.one_pos
  | succ k ih =>
    have hb : (m a).toNat < 256 := (m a).toNat_lt
    have ht : load m (a + 1) k < 256 ^ k := ih (a + 1)
    show (m a).toNat + 256 * load m (a + 1) k < 256 ^ (k + 1)
    rw [Nat.pow_succ]
    omega

/-- The number spelled by the bytes of `v`. -/
theorem load_of_bytes (h : ∀ i, i < k → m (a + i) = UInt8.ofNat (v / 256 ^ i)) :
    load m a k = v % 256 ^ k := by
  induction k generalizing a v with
  | zero => exact (Nat.mod_one v).symm
  | succ k ih =>
    have hhead : (m a).toNat = v % 256 := by
      have h0 := h 0 (by omega)
      rw [Nat.add_zero, pow_zero, Nat.div_one] at h0
      rw [h0]
      exact UInt8.toNat_ofNat'
    have htail : load m (a + 1) k = v / 256 % 256 ^ k := by
      refine ih fun i hi => ?_
      have hi' := h (i + 1) (by omega)
      rw [Nat.div_div_eq_div_mul, ← Nat.pow_succ', ← hi']
      congr 1
      omega
    show (m a).toNat + 256 * load m (a + 1) k = v % 256 ^ (k + 1)
    rw [hhead, htail, Nat.pow_succ', Nat.mod_mul]

/-! ## stores -/

theorem store_outside (h : x < a ∨ a + k ≤ x) : store m a k v x = m x := if_neg (by omega)

theorem fill_outside {c : UInt8} (h : x < a ∨ a + k ≤ x) : fill m a k c x = m x :=
  if_neg (by omega)

theorem copy_outside {dst src : ℕ} (h : x < dst ∨ dst + k ≤ x) : copy m dst src k x = m x :=
  if_neg (by omega)

theorem copy_inside {dst src i : ℕ} (h : i < k) : copy m dst src k (dst + i) = m (src + i) := by
  unfold copy
  rw [if_pos (by omega)]
  congr 1
  omega

/-- What was stored is loaded, up to the width of the field. -/
theorem load_store : load (store m a k v) a k = v % 256 ^ k := by
  refine load_of_bytes fun i hi => ?_
  unfold store
  rw [if_pos (by omega)]
  congr 3
  omega

theorem load_store_of_lt (hv : v < 256 ^ k) : load (store m a k v) a k = v := by
  rw [load_store, Nat.mod_eq_of_lt hv]

/-- The bytes of a loaded number. -/
theorem byte_load {i : ℕ} (h : i < k) : UInt8.ofNat (load m a k / 256 ^ i) = m (a + i) := by
  induction k generalizing a i with
  | zero => omega
  | succ k ih =>
    show UInt8.ofNat (((m a).toNat + 256 * load m (a + 1) k) / 256 ^ i) = m (a + i)
    have hb : (m a).toNat < 256 := (m a).toNat_lt
    cases i with
    | zero =>
      rw [pow_zero, Nat.div_one, Nat.add_zero]
      refine UInt8.toNat_inj.1 ?_
      rw [UInt8.toNat_ofNat', Nat.add_mul_mod_self_left]
      exact Nat.mod_eq_of_lt hb
    | succ i =>
      have htail : ((m a).toNat + 256 * load m (a + 1) k) / 256 = load m (a + 1) k := by omega
      rw [Nat.pow_succ', ← Nat.div_div_eq_div_mul, htail, ih (by omega)]
      congr 1
      omega

theorem store_load : store m a k (load m a k) = m := by
  funext x
  unfold store
  split
  · rw [byte_load (by omega)]
    congr 1
    omega
  · rfl

theorem sameOn_store (h : b + n ≤ a ∨ a + k ≤ b) : SameOn m (store m a k v) b n :=
  fun _ _ _ => store_outside (by omega)

theorem load_store_other (h : b + n ≤ a ∨ a + k ≤ b) : load (store m a k v) b n = load m b n :=
  load_congr (sameOn_store h)

end Bytes
