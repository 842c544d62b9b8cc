import Nomalloc.Lib.Probe
import Nomalloc.Lib.Runs
import Nomalloc.Utils.Hash

/-!
# Is the hash table a finite map?

`HashSys` runs a table and, next to it, the finite map that its successful calls describe.

* `HashSys.Inv`             the probe chains are closed, no key lies in two slots, and the table
                            holds the entries of the map;
* `table_agrees_iff`        the table behaves as the map all along a run exactly when no `insert`
                            of a key that is present meets a tombstone before the slot of the key;
* `insert_stops_at_tombstone`   a run in which one key is counted twice.
-/

namespace Nomalloc

open Probe

/-- A table and the map that it is to behave as. -/
structure HashSys where
  table : HashTable32
  map : BitVec 32 → Option ℕ

inductive HashOp where
  | insert (key : BitVec 32) (value : ℕ)
  | remove (key : BitVec 32)
  | lookup (key : BitVec 32)
  | clear

/-- The map follows the calls that returned zero. -/
def HashSys.step (s : HashSys) : HashOp → HashSys
  | .insert key value =>
    let r := hashTable32Insert s.table key value
    ⟨r.1, if r.2 = 0 then Function.update s.map key (some value) else s.map⟩
  | .remove key =>
    let r := hashTable32Remove s.table key
    ⟨r.1, if r.2 = 0 then Function.update s.map key none else s.map⟩
  | .lookup _ => s
  | .clear => ⟨hashTable32Clear s.table, fun _ => none⟩

/-- Every lookup answers as the map does, and `count` is the number of its keys. -/
def HashSys.Agrees (s : HashSys) : Prop :=
  (∀ key, (hashTable32Lookup s.table key).map s.table.value = s.map key) ∧
    s.table.count = Set.ncard {key | (s.map key).isSome}

/-- Keys that the table accepts. -/
def LiveKey (key : BitVec 32) : Prop := key ≠ HASH_EMPTY_SLOT ∧ key ≠ HASH_TOMBSTONE

/-- The slots that a search for `key` visits, in order. -/
def HashTable32.probe (table : HashTable32) (key : BitVec 32) (n : ℕ) : ℕ :=
  pos (hash32Murmur3 key).toNat table.capacity n

/-- An insert of a key that is present meets no tombstone before the slot of the key. -/
def HashOp.NoTombstoneBefore (s : HashSys) : HashOp → Prop
  | .insert key _ => LiveKey key → s.table.overloaded = false →
    ∀ n < s.table.capacity, s.table.key (s.table.probe key n) = key →
      ∀ j < n, s.table.key (s.table.probe key j) ≠ HASH_TOMBSTONE
  | _ => True

/-! ## the loops as walks -/

namespace HashTable32

variable {t : HashTable32}

/-- The capacity is a power of two and the arrays have that many slots. -/
structure Shape (t : HashTable32) : Prop where
  pow : ∃ e, t.capacity = 2 ^ e
  keys : t.keys.length = t.capacity
  values : t.values.length = t.capacity

theorem Shape.pos (h : t.Shape) : 0 < t.capacity := by
  obtain ⟨e, he⟩ := h.pow
  rw [he]
  exact Nat.two_pow_pos e

theorem Shape.and_mask (h : t.Shape) (x : ℕ) : x &&& (t.capacity - 1) = x % t.capacity := by
  obtain ⟨e, he⟩ := h.pow
  rw [he]
  exact Nat.and_two_pow_sub_one_eq_mod x e

theorem Shape.home_eq (h : t.Shape) (k : BitVec 32) : t.home k = t.probe k 0 := by
  unfold home probe Probe.pos
  rw [h.and_mask, Nat.add_zero]

theorem key_set {i : ℕ} (h : t.Shape) (hi : i < t.capacity) (k : BitVec 32) (j : ℕ) :
    (t.keys.set i k).getD j 0 = Function.update t.key i k j := by
  rw [← h.keys] at hi
  by_cases he : j = i
  · subst he
    simp [List.getD_eq_getElem?_getD, hi]
  · rw [Function.update_of_ne he]
    simp [HashTable32.key, List.getD_eq_getElem?_getD, List.getElem?_set_ne (Ne.symm he)]

theorem value_set {i : ℕ} (h : t.Shape) (hi : i < t.capacity) (v j : ℕ) :
    (t.values.set i v).getD j 0 = Function.update t.value i v j := by
  rw [← h.values] at hi
  by_cases he : j = i
  · subst he
    simp [List.getD_eq_getElem?_getD, hi]
  · rw [Function.update_of_ne he]
    simp [HashTable32.value, List.getD_eq_getElem?_getD, List.getElem?_set_ne (Ne.symm he)]

/-- Where `hash_table32_lookup` stops. -/
def lookupStop (t : HashTable32) (k : BitVec 32) (i : ℕ) : Bool :=
  t.key i = k ∨ t.key i = HASH_EMPTY_SLOT

/-- Where `hash_table32_insert` stops. -/
def insertStop (t : HashTable32) (k : BitVec 32) (i : ℕ) : Bool :=
  t.key i = k ∨ t.key i = HASH_EMPTY_SLOT ∨ t.key i = HASH_TOMBSTONE

theorem lookupLoop_eq (h : t.Shape) (k : BitVec 32) (m i : ℕ) :
    t.lookupLoop k m i =
      (scan (t.lookupStop k) t.capacity m i).bind fun j => if t.key j = k then some j else none := by
  induction m generalizing i with
  | zero => rfl
  | succ m ih =>
    unfold lookupLoop scan
    by_cases h1 : t.key i = k
    · simp [lookupStop, h1]
    · by_cases h2 : t.key i = HASH_EMPTY_SLOT
      · simp [lookupStop, h2]
      · simp only [lookupStop, h1, h2, or_self, decide_false, if_false, Bool.false_eq_true]
        rw [ih]
        unfold next
        rw [h.and_mask]

/-- The table after `key` takes over slot `i`. -/
def put (t : HashTable32) (i : ℕ) (k : BitVec 32) (v : ℕ) : HashTable32 :=
  { t with
    keys := t.keys.set i k
    values := t.values.set i v
    count := t.count + 1
    tombstones := if t.key i = HASH_TOMBSTONE then t.tombstones - 1 else t.tombstones }

/-- The table after slot `i` gets a new value. -/
def setValue (t : HashTable32) (i v : ℕ) : HashTable32 := { t with values := t.values.set i v }

theorem insertLoop_eq (h : t.Shape) (k : BitVec 32) (v m i : ℕ) :
    t.insertLoop k v m i =
      match scan (t.insertStop k) t.capacity m i with
      | none => (t, -3)
      | some j => if t.key j = k then (t.setValue j v, 0) else (t.put j k v, 0) := by
  induction m generalizing i with
  | zero => rfl
  | succ m ih =>
    unfold insertLoop scan
    by_cases h1 : t.key i = k
    · simp [insertStop, h1, setValue]
    · by_cases h2 : t.key i = HASH_EMPTY_SLOT ∨ t.key i = HASH_TOMBSTONE
      · simp only [insertStop, h1, h2, or_true, decide_true, if_true, if_false]
        rfl
      · simp only [insertStop, h1, h2, or_self, decide_false, if_false, Bool.false_eq_true]
        rw [ih]
        unfold next
        rw [h.and_mask]

end HashTable32

/-! ## what a call does to the slots -/

section
variable {t : HashTable32} {k : BitVec 32}

theorem HashTable32.Shape.setValue (h : t.Shape) (i v : ℕ) : (t.setValue i v).Shape :=
  ⟨h.pow, h.keys, (List.length_set ..).trans h.values⟩

theorem HashTable32.Shape.put (h : t.Shape) (i : ℕ) (k : BitVec 32) (v : ℕ) : (t.put i k v).Shape :=
  ⟨h.pow, (List.length_set ..).trans h.keys, (List.length_set ..).trans h.values⟩

theorem HashTable32.Shape.bury (h : t.Shape) (i count tombstones : ℕ) :
    HashTable32.Shape { t with
      keys := t.keys.set i HASH_TOMBSTONE
      values := t.values.set i 0
      count := count
      tombstones := tombstones } :=
  ⟨h.pow, (List.length_set ..).trans h.keys, (List.length_set ..).trans h.values⟩

/-- No key lies in a slot where an insert stops without finding its own. -/
theorem HashTable32.dead_of_insertStop {i : ℕ} (hstop : t.insertStop k i = true)
    (hkey : t.key i ≠ k) : ¬ LiveKey (t.key i) := by
  rintro ⟨h0, h1⟩
  rcases of_decide_eq_true hstop with h2 | h2 | h2
  · exact hkey h2
  · exact h0 h2
  · exact h1 h2

/-- An insert changes nothing, or it stops at a slot of the walk for its key. -/
theorem HashTable32.Shape.insert_cases (h : t.Shape) (k : BitVec 32) (v : ℕ) :
    (∃ rc : ℤ, rc ≠ 0 ∧ hashTable32Insert t k v = (t, rc) ∧
      (LiveKey k → t.overloaded = false →
        ∀ n < t.capacity, t.insertStop k (t.probe k n) = false)) ∨
      (LiveKey k ∧ t.overloaded = false ∧
        ∃ n < t.capacity, t.insertStop k (t.probe k n) = true ∧
          (∀ j < n, t.insertStop k (t.probe k j) = false) ∧
          hashTable32Insert t k v =
            if t.key (t.probe k n) = k then (t.setValue (t.probe k n) v, 0)
            else (t.put (t.probe k n) k v, 0)) := by
  unfold hashTable32Insert
  split_ifs with hk hload
  · exact Or.inl ⟨-1, by decide, rfl, fun hlive => absurd hk (not_or.mpr hlive)⟩
  · exact Or.inl ⟨-2, by decide, rfl, fun _ hno => absurd (hload.symm.trans hno) (by decide)⟩
  · rw [h.home_eq, HashTable32.insertLoop_eq h]
    cases hs : scan (t.insertStop k) t.capacity t.capacity (t.probe k 0) with
    | none =>
      refine Or.inl ⟨-3, by decide, rfl, fun _ _ n hn => ?_⟩
      have hgo := scan_eq_none hs n hn
      rwa [Nat.zero_add] at hgo
    | some i =>
      obtain ⟨n, hn, hpos, hstop, hbefore⟩ := scan_eq_some hs
      rw [Nat.zero_add] at hpos
      have hi : t.probe k n = i := hpos
      refine Or.inr ⟨not_or.mp hk, Bool.eq_false_of_not_eq_true hload, n, hn, ?_, fun j hj => ?_, ?_⟩
      · rw [hi]
        exact hstop
      · have hgo := hbefore j hj
        rwa [Nat.zero_add] at hgo
      · rw [hi]

end

/-! ## the invariant -/

/-- Where a search for a key starts, before it is taken modulo the capacity. -/
def hashHome (k : BitVec 32) : ℕ := (hash32Murmur3 k).toNat

structure HashSys.Inv (s : HashSys) : Prop where
  shape : s.table.Shape
  chain : Chained hashHome s.table.capacity LiveKey HASH_EMPTY_SLOT s.table.key
  once : Once s.table.capacity LiveKey s.table.key
  entry : ∀ k v, s.map k = some v ↔
    LiveKey k ∧ ∃ i < s.table.capacity, s.table.key i = k ∧ s.table.value i = v
  count : s.table.count = Set.ncard {k | (s.map k).isSome}

section
variable {s : HashSys} {k : BitVec 32}

/-- A key of the map lies in a slot. -/
theorem HashSys.Inv.isSome_iff (h : s.Inv) :
    (s.map k).isSome ↔ LiveKey k ∧ ∃ i < s.table.capacity, s.table.key i = k := by
  rw [Option.isSome_iff_exists]
  constructor
  · rintro ⟨v, hv⟩
    obtain ⟨hk, i, hi, hkey, -⟩ := (h.entry k v).mp hv
    exact ⟨hk, i, hi, hkey⟩
  · rintro ⟨hk, i, hi, hkey⟩
    exact ⟨_, (h.entry k _).mpr ⟨hk, i, hi, hkey, rfl⟩⟩

theorem HashSys.Inv.lookup_present (h : s.Inv) (hk : LiveKey k) {i : ℕ}
    (hi : i < s.table.capacity) (hkey : s.table.key i = k) :
    hashTable32Lookup s.table k = some i := by
  have hscan : scan (s.table.lookupStop k) s.table.capacity s.table.capacity (s.table.probe k 0) =
      some i :=
    h.chain.scan_eq (fun j => by unfold HashTable32.lookupStop; exact decide_eq_true_iff) h.once hk
      hi hkey
  unfold hashTable32Lookup
  rw [if_neg (not_or.mpr hk), h.shape.home_eq, HashTable32.lookupLoop_eq h.shape, hscan]
  exact if_pos hkey

/-- A slot that a lookup finds holds the key. -/
theorem HashTable32.Shape.lookup_some {t : HashTable32} (h : t.Shape) {i : ℕ}
    (hl : hashTable32Lookup t k = some i) : LiveKey k ∧ i < t.capacity ∧ t.key i = k := by
  unfold hashTable32Lookup at hl
  split_ifs at hl with hk
  rw [h.home_eq, HashTable32.lookupLoop_eq h] at hl
  obtain ⟨j, hj, hkey⟩ := Option.bind_eq_some_iff.mp hl
  obtain ⟨d, -, hpos, -⟩ := scan_eq_some hj
  split_ifs at hkey with he
  cases hkey
  exact ⟨not_or.mp hk, hpos ▸ pos_lt h.pos _, he⟩

theorem HashSys.Inv.agrees (h : s.Inv) : s.Agrees := by
  refine ⟨fun k => ?_, h.count⟩
  cases hl : hashTable32Lookup s.table k with
  | some i =>
    obtain ⟨hk, hi, hkey⟩ := h.shape.lookup_some hl
    exact ((h.entry k _).mpr ⟨hk, i, hi, hkey, rfl⟩).symm
  | none =>
    cases hm : s.map k with
    | none => rfl
    | some v =>
      obtain ⟨hk, i, hi, hkey, -⟩ := (h.entry k v).mp hm
      rw [h.lookup_present hk hi hkey] at hl
      exact absurd hl (by simp)

theorem finite_keys (keys : Set (BitVec 32)) : keys.Finite :=
  haveI : Finite (BitVec 32) := Finite.of_injective BitVec.toFin fun _ _ he => by
    rwa [BitVec.toFin_inj] at he
  Set.toFinite keys

theorem ncard_keys_update {m : BitVec 32 → Option ℕ} (v : ℕ) (hnone : m k = none) :
    Set.ncard {x | (Function.update m k (some v) x).isSome} = Set.ncard {x | (m x).isSome} + 1 := by
  have hset : {x | (Function.update m k (some v) x).isSome} = insert k {x | (m x).isSome} := by
    ext x
    by_cases hx : x = k
    · subst hx
      simp
    · simp [hx]
  rw [hset, Set.ncard_insert_of_notMem (by simp [hnone]) (finite_keys _)]

theorem ncard_keys_update_of_mem {m : BitVec 32 → Option ℕ} (v : ℕ) (hsome : (m k).isSome) :
    Set.ncard {x | (Function.update m k (some v) x).isSome} = Set.ncard {x | (m x).isSome} := by
  congr 1
  ext x
  by_cases hx : x = k
  · subst hx
    simp [hsome]
  · simp [hx]

theorem ncard_keys_remove {m : BitVec 32 → Option ℕ} (hsome : (m k).isSome) :
    Set.ncard {x | (Function.update m k none x).isSome} + 1 = Set.ncard {x | (m x).isSome} := by
  have hset : {x | (Function.update m k none x).isSome} = {x | (m x).isSome} \ {k} := by
    ext x
    by_cases hx : x = k
    · subst hx
      simp
    · simp [hx]
  have hmem : k ∈ {x | (m x).isSome} := hsome
  rw [hset, Set.ncard_sdiff_singleton_add_one hmem (finite_keys _)]

theorem HashSys.Inv.setValue (h : s.Inv) (hk : LiveKey k) {i : ℕ} (hi : i < s.table.capacity)
    (hkey : s.table.key i = k) (v : ℕ) :
    (⟨s.table.setValue i v, Function.update s.map k (some v)⟩ : HashSys).Inv := by
  have hvalue : (s.table.setValue i v).value = Function.update s.table.value i v :=
    funext (HashTable32.value_set h.shape hi v)
  refine ⟨h.shape.setValue i v, h.chain, h.once, fun k' v' => ?_, ?_⟩
  · show Function.update s.map k (some v) k' = some v' ↔ LiveKey k' ∧
      ∃ j < s.table.capacity, s.table.key j = k' ∧ (s.table.setValue i v).value j = v'
    rw [hvalue]
    by_cases he : k' = k
    · subst he
      rw [Function.update_self, Option.some_inj]
      constructor
      · rintro rfl
        exact ⟨hk, i, hi, hkey, Function.update_self ..⟩
      · rintro ⟨-, j, hj, hj', hv⟩
        have hji := h.once j hj i hi (by rw [hj']; exact hk) (hj'.trans hkey.symm)
        rw [hji, Function.update_self] at hv
        exact hv
    · rw [Function.update_of_ne he, h.entry]
      refine and_congr_right fun _ => exists_congr fun j => and_congr_right fun _ =>
        and_congr_right fun hj => ?_
      rw [Function.update_of_ne]
      rintro rfl
      exact he (hj.symm.trans hkey)
  · exact h.count.trans (ncard_keys_update_of_mem v (h.isSome_iff.mpr ⟨hk, i, hi, hkey⟩)).symm

/-- A key that is not present takes over a slot, with no never used slot before it. -/
theorem HashSys.Inv.put (h : s.Inv) (hk : LiveKey k) {n : ℕ} (hn : n < s.table.capacity)
    (hbefore : ∀ j < n, s.table.key (s.table.probe k j) ≠ HASH_EMPTY_SLOT)
    (hdead : ¬ LiveKey (s.table.key (s.table.probe k n)))
    (hnew : ∀ j < s.table.capacity, s.table.key j ≠ k) (v : ℕ) :
    (⟨s.table.put (s.table.probe k n) k v, Function.update s.map k (some v)⟩ : HashSys).Inv := by
  have hi : s.table.probe k n < s.table.capacity := pos_lt h.shape.pos n
  have hkeys : (s.table.put (s.table.probe k n) k v).key =
      Function.update s.table.key (s.table.probe k n) k :=
    funext (HashTable32.key_set h.shape hi k)
  have hvalue : (s.table.put (s.table.probe k n) k v).value =
      Function.update s.table.value (s.table.probe k n) v :=
    funext (HashTable32.value_set h.shape hi v)
  have hnone : s.map k = none := by
    rw [← Option.not_isSome_iff_eq_none, h.isSome_iff]
    rintro ⟨-, j, hj, hj'⟩
    exact hnew j hj hj'
  refine ⟨h.shape.put _ k v, ?_, ?_, fun k' v' => ?_, ?_⟩
  · show Chained hashHome s.table.capacity LiveKey HASH_EMPTY_SLOT
      (s.table.put (s.table.probe k n) k v).key
    rw [hkeys]
    exact h.chain.put hn hk.1 hbefore
  · show Once s.table.capacity LiveKey (s.table.put (s.table.probe k n) k v).key
    rw [hkeys]
    exact h.once.put hnew
  · show Function.update s.map k (some v) k' = some v' ↔ LiveKey k' ∧
      ∃ j < s.table.capacity, (s.table.put (s.table.probe k n) k v).key j = k' ∧
        (s.table.put (s.table.probe k n) k v).value j = v'
    rw [hkeys, hvalue]
    by_cases he : k' = k
    · subst he
      rw [Function.update_self, Option.some_inj]
      constructor
      · rintro rfl
        exact ⟨hk, _, hi, Function.update_self .., Function.update_self ..⟩
      · rintro ⟨-, j, hj, hj', hv⟩
        by_cases hji : j = s.table.probe k' n
        · rw [hji, Function.update_self] at hv
          exact hv
        · rw [Function.update_of_ne hji] at hj'
          exact absurd hj' (hnew j hj)
    · rw [Function.update_of_ne he, h.entry]
      refine and_congr_right fun hk' => exists_congr fun j => and_congr_right fun _ => ?_
      by_cases hji : j = s.table.probe k n
      · subst hji
        rw [Function.update_self, Function.update_self]
        constructor
        · rintro ⟨hx, -⟩
          exact absurd (hx ▸ hk') hdead
        · rintro ⟨hx, -⟩
          exact absurd hx.symm he
      · rw [Function.update_of_ne hji, Function.update_of_ne hji]
  · show s.table.count + 1 = _
    rw [ncard_keys_update v hnone, h.count]

theorem HashSys.Inv.bury (h : s.Inv) (hk : LiveKey k) {i : ℕ} (hi : i < s.table.capacity)
    (hkey : s.table.key i = k) :
    (⟨{ s.table with
        keys := s.table.keys.set i HASH_TOMBSTONE
        values := s.table.values.set i 0
        count := s.table.count - 1
        tombstones := s.table.tombstones + 1 }, Function.update s.map k none⟩ : HashSys).Inv := by
  set t' : HashTable32 := { s.table with
    keys := s.table.keys.set i HASH_TOMBSTONE
    values := s.table.values.set i 0
    count := s.table.count - 1
    tombstones := s.table.tombstones + 1 } with ht'
  have hkeys : t'.key = Function.update s.table.key i HASH_TOMBSTONE :=
    funext (HashTable32.key_set h.shape hi HASH_TOMBSTONE)
  have hvalue : t'.value = Function.update s.table.value i 0 :=
    funext (HashTable32.value_set h.shape hi 0)
  have hdead : ¬ LiveKey HASH_TOMBSTONE := fun hx => hx.2 rfl
  refine ⟨h.shape.bury i _ _, ?_, ?_, fun k' v' => ?_, ?_⟩
  · show Chained hashHome s.table.capacity LiveKey HASH_EMPTY_SLOT t'.key
    rw [hkeys]
    exact h.chain.bury hdead (by decide)
  · show Once s.table.capacity LiveKey t'.key
    rw [hkeys]
    exact h.once.bury hdead
  · show Function.update s.map k none k' = some v' ↔ LiveKey k' ∧
      ∃ j < s.table.capacity, t'.key j = k' ∧ t'.value j = v'
    rw [hkeys, hvalue]
    by_cases he : k' = k
    · subst he
      rw [Function.update_self]
      constructor
      · intro hx
        exact absurd hx (by simp)
      · rintro ⟨-, j, hj, hj', -⟩
        by_cases hji : j = i
        · rw [hji, Function.update_self] at hj'
          exact absurd hj'.symm hk.2
        · rw [Function.update_of_ne hji] at hj'
          exact absurd (h.once j hj i hi (by rw [hj']; exact hk) (hj'.trans hkey.symm)) hji
    · rw [Function.update_of_ne he, h.entry]
      refine and_congr_right fun hk' => exists_congr fun j => and_congr_right fun _ => ?_
      by_cases hji : j = i
      · subst hji
        rw [Function.update_self, Function.update_self]
        constructor
        · rintro ⟨hx, -⟩
          exact absurd (hx.symm.trans hkey) he
        · rintro ⟨hx, -⟩
          exact absurd hx.symm hk'.2
      · rw [Function.update_of_ne hji, Function.update_of_ne hji]
  · show s.table.count - 1 = Set.ncard {x | (Function.update s.map k none x).isSome}
    have hless := ncard_keys_remove (h.isSome_iff.mpr ⟨hk, i, hi, hkey⟩)
    rw [h.count]
    omega

/-- An insert that is turned down changes neither the table nor the map. -/
theorem HashSys.step_insert_refused {v : ℕ} {rc : ℤ} (hrc : rc ≠ 0)
    (he : hashTable32Insert s.table k v = (s.table, rc)) : s.step (.insert k v) = s := by
  unfold HashSys.step
  simp only [he, hrc, if_false]

theorem HashSys.step_insert_done {v : ℕ} {t : HashTable32}
    (he : hashTable32Insert s.table k v = (t, 0)) :
    s.step (.insert k v) = ⟨t, Function.update s.map k (some v)⟩ := by
  unfold HashSys.step
  simp only [he, if_true]

theorem HashSys.Inv.insert (h : s.Inv) (v : ℕ)
    (hc : HashOp.NoTombstoneBefore s (.insert k v)) : (s.step (.insert k v)).Inv := by
  rcases h.shape.insert_cases k v with ⟨rc, hrc, he, -⟩ | ⟨hk, hload, n, hn, hstop, hbefore, he⟩
  · rw [HashSys.step_insert_refused hrc he]
    exact h
  · by_cases hkey : s.table.key (s.table.probe k n) = k
    · rw [if_pos hkey] at he
      rw [HashSys.step_insert_done he]
      exact h.setValue hk (pos_lt h.shape.pos n) hkey v
    · rw [if_neg hkey] at he
      rw [HashSys.step_insert_done he]
      have hbefore' := fun j hj => of_decide_eq_false (hbefore j hj)
      refine h.put hk hn (fun j hj h0 => hbefore' j hj (Or.inr (Or.inl h0)))
        (HashTable32.dead_of_insertStop hstop hkey) ?_ v
      -- a slot of the key would lie behind a tombstone, or before the slot found
      intro i hi hik
      obtain ⟨m, hm, rfl⟩ := exists_pos (hash32Murmur3 k).toNat hi
      rcases Nat.lt_trichotomy m n with hlt | rfl | hlt
      · exact hbefore' m hlt (Or.inl hik)
      · exact hkey hik
      · rcases of_decide_eq_true hstop with h2 | h2 | h2
        · exact hkey h2
        · exact h.chain k hk m hm hik n hlt h2
        · exact hc hk hload m hm hik n hlt h2

/-- A tombstone before the slot of a key that is present makes the next insert count it twice. -/
theorem HashSys.Inv.insert_counts_twice (h : s.Inv) (v : ℕ)
    (hc : ¬ HashOp.NoTombstoneBefore s (.insert k v)) : ¬ (s.step (.insert k v)).Agrees := by
  unfold HashOp.NoTombstoneBefore at hc
  push Not at hc
  obtain ⟨hk, hload, m, hm, hkey, j, hj, htomb⟩ := hc
  have hi : s.table.probe k m < s.table.capacity := pos_lt h.shape.pos m
  have hstopj : s.table.insertStop k (s.table.probe k j) = true :=
    decide_eq_true (Or.inr (Or.inr htomb))
  rcases h.shape.insert_cases k v with ⟨-, -, -, hnone⟩ | ⟨-, -, n, hn, hstop, hbefore, he⟩
  · -- the walk stops at the tombstone at the latest
    have hgo := hnone hk hload j (by omega)
    exact absurd (hstopj.symm.trans hgo) (by decide)
  · have hnj : n ≤ j := by
      by_contra hlt
      have := hbefore j (by omega)
      exact absurd (hstopj.symm.trans this) (by decide)
    have hne : s.table.key (s.table.probe k n) ≠ k := by
      intro hkn
      have hlive : LiveKey (s.table.key (s.table.probe k n)) := by
        rw [hkn]
        exact hk
      have := h.once _ (pos_lt h.shape.pos n) _ hi hlive (hkn.trans hkey.symm)
      have := pos_inj hn hm this
      omega
    rw [if_neg hne] at he
    rw [HashSys.step_insert_done he]
    rintro ⟨-, hcount⟩
    rw [ncard_keys_update_of_mem v (h.isSome_iff.mpr ⟨hk, _, hi, hkey⟩), ← h.count] at hcount
    exact absurd hcount (Nat.succ_ne_self s.table.count)

theorem HashSys.Inv.remove (h : s.Inv) : (s.step (.remove k)).Inv := by
  by_cases hk : LiveKey k
  swap
  · have hk' : k = HASH_EMPTY_SLOT ∨ k = HASH_TOMBSTONE := by
      by_contra hno
      exact hk (not_or.mp hno)
    have he : hashTable32Remove s.table k = (s.table, -1) := if_pos hk'
    have hs : s.step (.remove k) = s := by
      unfold HashSys.step
      simp [he]
    rw [hs]
    exact h
  cases hl : hashTable32Lookup s.table k with
  | none =>
    have he : hashTable32Remove s.table k = (s.table, -2) := by
      unfold hashTable32Remove
      rw [if_neg (not_or.mpr hk), hl]
    have hs : s.step (.remove k) = s := by
      unfold HashSys.step
      simp [he]
    rw [hs]
    exact h
  | some i =>
    obtain ⟨-, hi, hkey⟩ := h.shape.lookup_some hl
    have he : s.step (.remove k) = ⟨{ s.table with
        keys := s.table.keys.set i HASH_TOMBSTONE
        values := s.table.values.set i 0
        count := s.table.count - 1
        tombstones := s.table.tombstones + 1 }, Function.update s.map k none⟩ := by
      unfold HashSys.step hashTable32Remove
      simp only [if_neg (not_or.mpr hk), hl, if_true]
    rw [he]
    exact h.bury hk hi hkey

end

/-- A table all of whose slots were never used is the empty map. -/
theorem HashSys.inv_empty {t : HashTable32} (hpow : ∃ e, t.capacity = 2 ^ e)
    (hkeys : t.keys = List.replicate t.capacity 0) (hvalues : t.values = List.replicate t.capacity 0)
    (hcount : t.count = 0) : (⟨t, fun _ => none⟩ : HashSys).Inv := by
  have hkey : ∀ i, t.key i = HASH_EMPTY_SLOT := fun i => by
    unfold HashTable32.key
    rw [hkeys]
    by_cases hi : i < t.capacity
    · simp [List.getD_eq_getElem?_getD, hi, HASH_EMPTY_SLOT]
    · simp [List.getD_eq_getElem?_getD, hi, HASH_EMPTY_SLOT]
  refine ⟨⟨hpow, by simp [hkeys], by simp [hvalues]⟩, ?_, ?_, fun k v => ?_, ?_⟩
  · intro k hk n _ hslot
    exact absurd (hslot.symm.trans (hkey _)) hk.1
  · intro i _ j _ hlive
    exact absurd (hkey i) hlive.1
  · constructor
    · intro hx
      exact absurd hx (by simp)
    · rintro ⟨hk, i, -, hslot, -⟩
      exact absurd (hslot.symm.trans (hkey i)) hk.1
  · simpa using hcount

theorem HashSys.inv_step (s : HashSys) (op : HashOp) (h : s.Inv) (hc : op.NoTombstoneBefore s) :
    (s.step op).Inv := by
  cases op with
  | insert k v => exact h.insert v hc
  | remove k => exact h.remove
  | lookup k => exact h
  | clear => exact HashSys.inv_empty h.shape.pow rfl rfl rfl

/-- **The table is a finite map**, all along a run on a fresh table, exactly when no insert of a
key that is present meets a tombstone before the slot of the key. -/
theorem table_agrees_iff {e : ℕ} {t : HashTable32}
    (hinit : hashTable32Init (2 ^ e) true true = some t) (ops : List HashOp) :
    Runs.Always HashSys.step HashSys.Agrees ⟨t, fun _ => none⟩ ops ↔
      Runs.Each HashSys.step HashOp.NoTombstoneBefore ⟨t, fun _ => none⟩ ops := by
  have hstart : (⟨t, fun _ => none⟩ : HashSys).Inv := by
    cases hinit
    exact HashSys.inv_empty ⟨e, rfl⟩ rfl rfl rfl
  refine Runs.always_iff_each HashSys.inv_step (fun s h => h.agrees) (fun s op h hc => ?_) hstart
  cases op with
  | insert k v => exact h.insert_counts_twice v hc
  | remove k => exact absurd trivial hc
  | lookup k => exact absurd trivial hc
  | clear => exact absurd trivial hc

/-- Four keys come and go in a table of four slots, and it stays a map. -/
theorem table_agrees_run :
    Runs.Always HashSys.step HashSys.Agrees ⟨(hashTable32Init (2 ^ 2) true true).get rfl, fun _ => none⟩
      [.insert 4 40, .insert 5 50, .remove 5, .lookup 4] := by
  refine (table_agrees_iff rfl _).mpr ⟨?_, ?_, trivial, trivial, trivial⟩
  · intro _ _ n hn
    revert n
    decide
  · intro _ _ n hn
    revert n
    decide

/-- The keys 4 and 5 share their first slot.  Insert both, remove 4, insert 5 again: the table
counts two keys and holds one. -/
theorem insert_stops_at_tombstone :
    ∃ (t : HashTable32) (ops : List HashOp), hashTable32Init (2 ^ 2) true true = some t ∧
      (Runs.after HashSys.step ⟨t, fun _ => none⟩ ops).table.count = 2 ∧
      ¬ Runs.Always HashSys.step HashSys.Agrees ⟨t, fun _ => none⟩ ops := by
  refine ⟨(hashTable32Init (2 ^ 2) true true).get rfl,
    [.insert 4 40, .insert 5 50, .remove 4, .insert 5 51], rfl, by decide, fun h => ?_⟩
  have hinv : (Runs.after HashSys.step ⟨(hashTable32Init (2 ^ 2) true true).get rfl, fun _ => none⟩
      [.insert 4 40, .insert 5 50, .remove 4]).Inv := by
    refine Runs.inv_after HashSys.inv_step (HashSys.inv_empty ⟨2, rfl⟩ rfl rfl rfl)
      ⟨?_, ?_, trivial, trivial⟩
    · intro _ _ n hn
      revert n
      decide
    · intro _ _ n hn
      revert n
      decide
  refine hinv.insert_counts_twice 51 (fun hc => ?_) h.last
  exact hc ⟨by decide, by decide⟩ (by decide) 1 (by decide) (by decide) 0 (by decide) (by decide)

end Nomalloc
