import Nomalloc.Utils.Hash
import Nomalloc.Lib.Mixers

/-!
# The hash functions of `utils/hash.h`

`hash32_murmur3` and `hash64_murmur3` are one to one (`murmur3_bijective`), so that a table whose size is
a power of two has equally many keys for every slot (`slots_even`).  `hash32_fnv1a` and `hash64_fnv1a`
see every change of one byte (`fnv1a_set`).
-/

namespace Nomalloc
open Mixers Function

/-- `hash64_murmur3` -/
def hash64Murmur3 (key : BitVec 64) : BitVec 64 :=
  let key := key ^^^ (key >>> 33)
  let key := key * 0xff51afd7ed558ccd
  let key := key ^^^ (key >>> 33)
  let key := key * 0xc4ceb9fe1a85ec53
  key ^^^ (key >>> 33)

/-- `hash32_fnv1a` -/
def hash32Fnv1a (bytes : List (BitVec 8)) : BitVec 32 :=
  bytes.foldl (fun hash byte => (hash ^^^ byte.setWidth 32) * 16777619) 2166136261

/-- `hash64_fnv1a` -/
def hash64Fnv1a (bytes : List (BitVec 8)) : BitVec 64 :=
  bytes.foldl (fun hash byte => (hash ^^^ byte.setWidth 64) * 1099511628211) 14695981039346656037

/-! ## Words -/

theorem hash32Murmur3_eq : hash32Murmur3 = xorShift 16 ∘ (· * 0xc2b2ae35) ∘ xorShift 13 ∘
    (· * 0x85ebca6b) ∘ xorShift 16 := rfl

theorem hash64Murmur3_eq : hash64Murmur3 = xorShift 33 ∘ (· * 0xc4ceb9fe1a85ec53) ∘ xorShift 33 ∘
    (· * 0xff51afd7ed558ccd) ∘ xorShift 33 := rfl

theorem hash32Murmur3_injective : Injective hash32Murmur3 := by
  have hfirst : Injective fun x : BitVec 32 => x * 0x85ebca6b :=
    mul_injective (show (0x85ebca6b : BitVec 32) * 0xa5cb9243 = 1#32 by decide)
  have hsecond : Injective fun x : BitVec 32 => x * 0xc2b2ae35 :=
    mul_injective (show (0xc2b2ae35 : BitVec 32) * 0x7ed1b41d = 1#32 by decide)
  rw [hash32Murmur3_eq]
  exact (xorShift_injective (by decide)).comp (hsecond.comp ((xorShift_injective (by decide)).comp
    (hfirst.comp (xorShift_injective (by decide)))))

theorem hash64Murmur3_injective : Injective hash64Murmur3 := by
  have hfirst : Injective fun x : BitVec 64 => x * 0xff51afd7ed558ccd :=
    mul_injective (show (0xff51afd7ed558ccd : BitVec 64) * 0x4f74430c22a54005 = 1#64 by decide)
  have hsecond : Injective fun x : BitVec 64 => x * 0xc4ceb9fe1a85ec53 :=
    mul_injective (show (0xc4ceb9fe1a85ec53 : BitVec 64) * 0x9cb4b2f8129337db = 1#64 by decide)
  rw [hash64Murmur3_eq]
  exact (xorShift_injective (by decide)).comp (hsecond.comp ((xorShift_injective (by decide)).comp
    (hfirst.comp (xorShift_injective (by decide)))))

/-- **No two words have one hash**, and every word is a hash. -/
theorem murmur3_bijective : Bijective hash32Murmur3 ∧ Bijective hash64Murmur3 :=
  ⟨bijective hash32Murmur3_injective, bijective hash64Murmur3_injective⟩

/-- **Every slot of a table is the home of equally many keys.** -/
theorem slots_even (table : HashTable32) {k : ℕ} (hk : k ≤ 32) (hcapacity : table.capacity = 2 ^ k)
    {slot : ℕ} (hslot : slot < table.capacity) :
    (Finset.univ.filter fun key => table.home key = slot).card = 2 ^ (32 - k) := by
  unfold HashTable32.home
  rw [hcapacity] at hslot ⊢
  exact card_hash_low_bits (bijective hash32Murmur3_injective) hk hslot

/-- Four slots. -/
theorem slots_even_four :
    (Finset.univ.filter fun key => (HashTable32.mk [0, 0, 0, 0] [0, 0, 0, 0] 4 0 0).home key = 3).card =
      2 ^ (32 - 2) :=
  slots_even ⟨[0, 0, 0, 0], [0, 0, 0, 0], 4, 0, 0⟩ (by decide) rfl (by decide)

/-! ## Strings -/

theorem feeds_fnv32 : Feeds fun (hash : BitVec 32) (byte : BitVec 8) =>
    (hash ^^^ byte.setWidth 32) * 16777619 :=
  feeds_xor_mul (by decide) (show (16777619 : BitVec 32) * 899433627 = 1#32 by decide)

theorem feeds_fnv64 : Feeds fun (hash : BitVec 64) (byte : BitVec 8) =>
    (hash ^^^ byte.setWidth 64) * 1099511628211 :=
  feeds_xor_mul (by decide) (show (1099511628211 : BitVec 64) * 14886173955864302971 = 1#64 by decide)

/-- **A change of one byte is seen** by both hashes, whatever the other bytes are. -/
theorem fnv1a_set {bytes : List (BitVec 8)} {i : ℕ} (hi : i < bytes.length) (byte : BitVec 8) :
    (hash32Fnv1a (bytes.set i byte) = hash32Fnv1a bytes ↔ byte = bytes[i]) ∧
      (hash64Fnv1a (bytes.set i byte) = hash64Fnv1a bytes ↔ byte = bytes[i]) :=
  ⟨feeds_fnv32.foldl_set _ hi byte, feeds_fnv64.foldl_set _ hi byte⟩

theorem fnv1a_set_abc :
    (hash32Fnv1a (([97, 98, 99] : List (BitVec 8)).set 1 120) = hash32Fnv1a [97, 98, 99] ↔
        (120 : BitVec 8) = [97, 98, 99][1]) ∧
      (hash64Fnv1a (([97, 98, 99] : List (BitVec 8)).set 1 120) = hash64Fnv1a [97, 98, 99] ↔
        (120 : BitVec 8) = [97, 98, 99][1]) :=
  fnv1a_set (by decide) 120

end Nomalloc
