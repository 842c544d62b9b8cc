import Nomalloc.Lib.Double

/-!
# `utils/hash.h`

The integer hash and the open-addressing table keyed by `uint32_t`.  A probe loop of the source
runs `probe_count` from zero to the capacity; here it is a recursion on the probes left.  The
pointer that `hash_table32_lookup` returns into `values` is the index of its slot.

* `hash32Murmur3`, `hash32Ptr`
* `hashTable32Init`, `hashTable32Lookup`, `hashTable32Insert`, `hashTable32Remove`,
  `hashTable32Clear`
-/

namespace Nomalloc

/-- `hash32_murmur3` -/
def hash32Murmur3 (key : BitVec 32) : BitVec 32 :=
  let key := key ^^^ (key >>> 16)
  let key := key * 0x85ebca6b
  let key := key ^^^ (key >>> 13)
  let key := key * 0xc2b2ae35
  key ^^^ (key >>> 16)

/-- `hash32_ptr`: only the low 32 bits of the pointer are hashed. -/
def hash32Ptr (ptr : ℕ) : BitVec 32 := hash32Murmur3 (BitVec.ofNat 32 ptr)

def HASH_EMPTY_SLOT : BitVec 32 := 0
def HASH_TOMBSTONE : BitVec 32 := 1

/-- `struct hash_table32`; a `NULL` value is zero. -/
structure HashTable32 where
  keys : List (BitVec 32)
  values : List ℕ
  capacity : ℕ
  count : ℕ
  tombstones : ℕ

/-- `hash_table32_init`, with whether the two `calloc` calls succeed. -/
def hashTable32Init (capacity : ℕ) (keysOk valuesOk : Bool) : Option HashTable32 :=
  if !keysOk || !valuesOk then none
  else some
    { keys := List.replicate capacity 0
      values := List.replicate capacity 0
      capacity := capacity
      count := 0
      tombstones := 0 }

namespace HashTable32

/-- `table->keys[idx]` -/
def key (table : HashTable32) (idx : ℕ) : BitVec 32 := table.keys.getD idx 0

/-- `table->values[idx]` -/
def value (table : HashTable32) (idx : ℕ) : ℕ := table.values.getD idx 0

/-- `hash & (capacity - 1)` -/
def home (table : HashTable32) (key : BitVec 32) : ℕ :=
  (hash32Murmur3 key).toNat &&& (table.capacity - 1)

/-- `(idx + 1) & (capacity - 1)` -/
def next (table : HashTable32) (idx : ℕ) : ℕ := (idx + 1) &&& (table.capacity - 1)

/-- The probe loop of `hash_table32_lookup`. -/
def lookupLoop (table : HashTable32) (key : BitVec 32) : ℕ → ℕ → Option ℕ
  | 0, _ => none
  | n + 1, idx =>
    if table.key idx = key then some idx
    else if table.key idx = HASH_EMPTY_SLOT then none
    else lookupLoop table key n (table.next idx)

/-- The probe loop of `hash_table32_insert`. -/
def insertLoop (table : HashTable32) (key : BitVec 32) (value : ℕ) : ℕ → ℕ → HashTable32 × Int
  | 0, _ => (table, -3)
  | n + 1, idx =>
    if table.key idx = key then ({ table with values := table.values.set idx value }, 0)
    else if table.key idx = HASH_EMPTY_SLOT ∨ table.key idx = HASH_TOMBSTONE then
      ({ table with
          keys := table.keys.set idx key
          values := table.values.set idx value
          count := table.count + 1
          tombstones :=
            if table.key idx = HASH_TOMBSTONE then table.tombstones - 1 else table.tombstones }, 0)
    else insertLoop table key value n (table.next idx)

/-- `count + tombstones >= capacity * 0.75`, both sides as doubles. -/
def overloaded (table : HashTable32) : Bool :=
  round53 (3 * round53 table.capacity) ≤ 4 * round53 (table.count + table.tombstones)

end HashTable32

/-- `hash_table32_lookup` -/
def hashTable32Lookup (table : HashTable32) (key : BitVec 32) : Option ℕ :=
  if key = HASH_EMPTY_SLOT ∨ key = HASH_TOMBSTONE then none
  else table.lookupLoop key table.capacity (table.home key)

/-- `hash_table32_insert` -/
def hashTable32Insert (table : HashTable32) (key : BitVec 32) (value : ℕ) : HashTable32 × Int :=
  if key = HASH_EMPTY_SLOT ∨ key = HASH_TOMBSTONE then (table, -1)
  else if table.overloaded then (table, -2)
  else table.insertLoop key value table.capacity (table.home key)

/-- `hash_table32_remove` -/
def hashTable32Remove (table : HashTable32) (key : BitVec 32) : HashTable32 × Int :=
  if key = HASH_EMPTY_SLOT ∨ key = HASH_TOMBSTONE then (table, -1)
  else
    match hashTable32Lookup table key with
    | none => (table, -2)
    | some idx =>
      ({ table with
          keys := table.keys.set idx HASH_TOMBSTONE
          values := table.values.set idx 0
          count := table.count - 1
          tombstones := table.tombstones + 1 }, 0)

/-- `hash_table32_clear` -/
def hashTable32Clear (table : HashTable32) : HashTable32 :=
  { table with
    keys := List.replicate table.capacity 0
    values := List.replicate table.capacity 0
    count := 0
    tombstones := 0 }

end Nomalloc
