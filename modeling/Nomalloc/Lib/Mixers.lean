import Mathlib.Tactic
import Mathlib.Data.BitVec
import Mathlib.Data.FinEnum

/-!
# Mixing machine words

Hash functions of words are made of steps that lose nothing: `x ^ (x >> k)`, and the product with an odd
constant.  Hash functions of byte strings feed one byte after the other into such a step.

* `Mixers.xorShift_injective`, `Mixers.mul_injective`   the two steps;
* `Mixers.bijective`          on words of one width, injective is bijective;
* `Mixers.card_low_bits`      and then the low bits of the hash are spread evenly;
* `Mixers.Feeds`              neither the state nor the byte is lost when a byte is fed in;
* `Mixers.Feeds.foldl_set`    so a string that is changed in one place has another hash.
-/

namespace Mixers
open Function

section
variable {w k i : ℕ} {x y : BitVec w}

def xorShift (k : ℕ) (x : BitVec w) : BitVec w := x ^^^ (x >>> k)

theorem getLsbD_xorShift : (xorShift k x).getLsbD i = (x.getLsbD i ^^ x.getLsbD (k + i)) := by
  unfold xorShift
  rw [BitVec.getLsbD_xor, BitVec.getLsbD_ushiftRight]

/-- The bits come back from the highest to the lowest. -/
theorem getLsbD_of_xorShift (hk : 0 < k) (h : xorShift k x = xorShift k y) (n i : ℕ) (hi : w ≤ i + n) :
    x.getLsbD i = y.getLsbD i := by
  induction n generalizing i with
  | zero => rw [BitVec.getLsbD_of_ge x i hi, BitVec.getLsbD_of_ge y i hi]
  | succ n ih =>
    have hhigh := ih (k + i) (by omega)
    have hbit : (xorShift k x).getLsbD i = (xorShift k y).getLsbD i := by rw [h]
    rw [getLsbD_xorShift, getLsbD_xorShift, hhigh] at hbit
    exact Bool.xor_left_inj.mp hbit

theorem xorShift_injective (hk : 0 < k) : Injective (xorShift k : BitVec w → BitVec w) := fun _ _ h =>
  BitVec.eq_of_getLsbD_eq fun i _ => getLsbD_of_xorShift hk h w i (by omega)

theorem mul_injective {c c' : BitVec w} (hc : c * c' = 1#w) : Injective fun x : BitVec w => x * c := by
  intro x y h
  have hxy := congrArg (· * c') h
  dsimp only at hxy
  rwa [BitVec.mul_assoc, BitVec.mul_assoc, hc, BitVec.mul_one, BitVec.mul_one] at hxy

theorem xor_injective (y : BitVec w) : Injective fun x : BitVec w => x ^^^ y := fun _ _ h =>
  (BitVec.xor_left_inj y).mp h

theorem bijective {f : BitVec w → BitVec w} (hf : Injective f) : Bijective f :=
  Finite.injective_iff_bijective.mp hf

end

section
variable {w k : ℕ}

/-- The words with given low bits. -/
theorem card_low_bits (hk : k ≤ w) {b : ℕ} (hb : b < 2 ^ k) :
    (Finset.univ.filter fun x : BitVec w => x.toNat &&& (2 ^ k - 1) = b).card = 2 ^ (w - k) := by
  have hw : 2 ^ w = 2 ^ k * 2 ^ (w - k) := by rw [← pow_add, Nat.add_sub_cancel' hk]
  have hpos : 0 < 2 ^ k := Nat.two_pow_pos k
  have hbound : ∀ m < 2 ^ (w - k), b + 2 ^ k * m < 2 ^ w := fun m hm => by
    calc b + 2 ^ k * m < 2 ^ k + 2 ^ k * m := Nat.add_lt_add_right hb _
      _ = 2 ^ k * (m + 1) := by ring
      _ ≤ 2 ^ k * 2 ^ (w - k) := Nat.mul_le_mul_left _ hm
      _ = 2 ^ w := hw.symm
  have hmod : ∀ m, (b + 2 ^ k * m) % 2 ^ k = b := fun m => by
    rw [Nat.add_mul_mod_self_left, Nat.mod_eq_of_lt hb]
  rw [← Finset.card_range (2 ^ (w - k))]
  symm
  refine Finset.card_bij (fun m _ => BitVec.ofNat w (b + 2 ^ k * m)) (fun m hm => ?_)
    (fun m hm n hn h => ?_) (fun x hx => ?_)
  · rw [Finset.mem_filter, BitVec.toNat_ofNat, Nat.mod_eq_of_lt (hbound m (Finset.mem_range.mp hm)),
      Nat.and_two_pow_sub_one_eq_mod]
    exact ⟨Finset.mem_univ _, hmod m⟩
  · have hnat := congrArg BitVec.toNat h
    rw [BitVec.toNat_ofNat, BitVec.toNat_ofNat, Nat.mod_eq_of_lt (hbound m (Finset.mem_range.mp hm)),
      Nat.mod_eq_of_lt (hbound n (Finset.mem_range.mp hn))] at hnat
    exact Nat.eq_of_mul_eq_mul_left hpos (Nat.add_left_cancel hnat)
  · obtain ⟨-, hlow⟩ := Finset.mem_filter.mp hx
    rw [Nat.and_two_pow_sub_one_eq_mod] at hlow
    refine ⟨x.toNat / 2 ^ k, Finset.mem_range.mpr ?_, ?_⟩
    · rw [Nat.div_lt_iff_lt_mul hpos, Nat.mul_comm, ← hw]
      exact x.isLt
    · rw [← hlow, Nat.mod_add_div, BitVec.ofNat_toNat, BitVec.setWidth_eq]

/-- **A bijective hash spreads evenly** over the tables whose size is a power of two. -/
theorem card_hash_low_bits {f : BitVec w → BitVec w} (hf : Bijective f) (hk : k ≤ w) {b : ℕ}
    (hb : b < 2 ^ k) :
    (Finset.univ.filter fun x : BitVec w => (f x).toNat &&& (2 ^ k - 1) = b).card = 2 ^ (w - k) := by
  rw [← card_low_bits hk hb]
  refine Finset.card_bij (fun x _ => f x) (fun x hx => ?_) (fun x _ y _ h => hf.1 h) (fun y hy => ?_)
  · exact Finset.mem_filter.mpr ⟨Finset.mem_univ _, (Finset.mem_filter.mp hx).2⟩
  · obtain ⟨x, rfl⟩ := hf.2 y
    exact ⟨x, Finset.mem_filter.mpr ⟨Finset.mem_univ _, (Finset.mem_filter.mp hy).2⟩, rfl⟩

end

/-! ## Strings -/

/-- A step that takes a byte into the state, and loses neither. -/
structure Feeds {σ α : Type*} (feed : σ → α → σ) : Prop where
  state : ∀ a, Injective fun s => feed s a
  byte : ∀ s, Injective (feed s)

section
variable {σ α : Type*} {feed : σ → α → σ}

theorem Feeds.foldl_injective (h : Feeds feed) (as : List α) : Injective fun s => as.foldl feed s := by
  induction as with
  | nil => exact fun _ _ h => h
  | cons a as ih => exact fun _ _ he => h.state a (ih he)

/-- **A change in one place is seen.** -/
theorem Feeds.foldl_set (h : Feeds feed) (s : σ) {as : List α} {i : ℕ} (hi : i < as.length) (a : α) :
    (as.set i a).foldl feed s = as.foldl feed s ↔ a = as[i] := by
  induction as generalizing s i with
  | nil => exact absurd hi (Nat.not_lt_zero i)
  | cons b as ih =>
    cases i with
    | zero =>
      rw [List.set_cons_zero, List.foldl_cons, List.foldl_cons, (h.foldl_injective as).eq_iff,
        (h.byte s).eq_iff]
      rfl
    | succ i =>
      rw [List.set_cons_succ, List.foldl_cons, List.foldl_cons]
      exact ih (feed s b) (Nat.lt_of_succ_lt_succ hi)

end

/-- `(hash ^ byte) * c` -/
theorem feeds_xor_mul {w v : ℕ} (hv : v ≤ w) {c c' : BitVec w} (hc : c * c' = 1#w) :
    Feeds fun (hash : BitVec w) (byte : BitVec v) => (hash ^^^ byte.setWidth w) * c where
  state b _ _ h := xor_injective (b.setWidth w) (mul_injective hc h)
  byte s a b h := by
    have hset : a.setWidth w = b.setWidth w := (BitVec.xor_right_inj s).mp (mul_injective hc h)
    refine BitVec.eq_of_toNat_eq ?_
    have hnat := congrArg BitVec.toNat hset
    rwa [BitVec.toNat_setWidth_of_le hv, BitVec.toNat_setWidth_of_le hv] at hnat

end Mixers
