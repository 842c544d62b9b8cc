import Mathlib.Data.List.GetD
import Nomalloc.Utils.HashTable

/-!
# When `hash_table32_insert` is turned down

The load that `hash_table32_insert` tests is the number of slots in use: those that hold a key, and
the tombstones of keys that were removed.  Nothing but an insert that happens on a tombstone makes a
tombstone a free slot again.

* `HashTable32.usedSlots`     the slots that are not empty;
* `SlotCounts`                `count` and `tombstones` count slots, in every state of a run;
* `hash_insert_succeeds_iff`  an insert is done exactly when the slots in use are fewer than three
                              quarters, present or not.
-/

namespace Nomalloc

open Probe

/-- The slots that hold a key or a tombstone. -/
def HashTable32.usedSlots (t : HashTable32) : ℕ :=
  t.keys.countP fun k => k ≠ HASH_EMPTY_SLOT

instance (k : BitVec 32) : Decidable (LiveKey k) := inferInstanceAs (Decidable (_ ∧ _))

/-- The two counters count the slots of the two kinds. -/
structure SlotCounts (t : HashTable32) : Prop where
  shape : t.Shape
  count : t.count = t.keys.countP fun k => LiveKey k
  tombstones : t.tombstones = t.keys.countP fun k => k = HASH_TOMBSTONE

section
variable {t : HashTable32} {k : BitVec 32}

theorem SlotCounts.used (h : SlotCounts t) : t.count + t.tombstones = t.usedSlots := by
  rw [h.count, h.tombstones]
  unfold HashTable32.usedSlots
  induction t.keys with
  | nil => rfl
  | cons x xs ih =>
    rw [List.countP_cons, List.countP_cons, List.countP_cons]
    have hsplit : (if decide (LiveKey x) then 1 else 0) + (if decide (x = HASH_TOMBSTONE) then 1 else 0) =
        if decide (x ≠ HASH_EMPTY_SLOT) then 1 else 0 := by
      by_cases h0 : x = HASH_EMPTY_SLOT
      · subst h0
        decide
      · by_cases h1 : x = HASH_TOMBSTONE
        · subst h1
          decide
        · have hlive : LiveKey x := ⟨h0, h1⟩
          simp [h0, h1, hlive]
    omega

theorem countP_set_key (h : t.Shape) {i : ℕ} (hi : i < t.capacity) (p : BitVec 32 → Bool)
    (k : BitVec 32) :
    (t.keys.set i k).countP p + (if p (t.key i) then 1 else 0) =
      t.keys.countP p + (if p k then 1 else 0) := by
  have hlen : i < t.keys.length := h.keys ▸ hi
  have hkey : t.keys[i] = t.key i := by
    unfold HashTable32.key
    rw [List.getD_eq_getElem _ _ hlen]
  have hle : (if p (t.key i) then 1 else 0) ≤ t.keys.countP p := by
    split_ifs with hp
    · exact List.countP_pos_iff.mpr ⟨_, List.getElem_mem hlen, by rw [hkey]; exact hp⟩
    · exact Nat.zero_le _
  rw [List.countP_set hlen, hkey]
  omega

theorem SlotCounts.put (h : SlotCounts t) {i : ℕ} (hi : i < t.capacity) (hk : LiveKey k)
    (hdead : ¬ LiveKey (t.key i)) (v : ℕ) : SlotCounts (t.put i k v) := by
  have hlive := countP_set_key h.shape hi (fun x => LiveKey x) k
  have htomb := countP_set_key h.shape hi (fun x => x = HASH_TOMBSTONE) k
  have hk1 : k ≠ HASH_TOMBSTONE := hk.2
  refine ⟨h.shape.put i k v, ?_, ?_⟩
  · show t.count + 1 = (t.keys.set i k).countP fun x => LiveKey x
    simp only [hk, hdead, decide_true, decide_false, if_true, Bool.false_eq_true, if_false] at hlive
    rw [h.count]
    omega
  · show (if t.key i = HASH_TOMBSTONE then t.tombstones - 1 else t.tombstones) =
      (t.keys.set i k).countP fun x => x = HASH_TOMBSTONE
    rw [h.tombstones]
    by_cases ht : t.key i = HASH_TOMBSTONE
    · simp only [ht, hk1, decide_true, decide_false, if_true, Bool.false_eq_true, if_false] at htomb ⊢
      omega
    · simp only [ht, hk1, decide_false, Bool.false_eq_true, if_false] at htomb ⊢
      omega

theorem SlotCounts.setValue (h : SlotCounts t) (i v : ℕ) : SlotCounts (t.setValue i v) :=
  ⟨h.shape.setValue i v, h.count, h.tombstones⟩

theorem SlotCounts.bury (h : SlotCounts t) {i : ℕ} (hi : i < t.capacity)
    (hlive : LiveKey (t.key i)) :
    SlotCounts { t with
      keys := t.keys.set i HASH_TOMBSTONE
      values := t.values.set i 0
      count := t.count - 1
      tombstones := t.tombstones + 1 } := by
  have hlives := countP_set_key h.shape hi (fun x => LiveKey x) HASH_TOMBSTONE
  have htombs := countP_set_key h.shape hi (fun x => x = HASH_TOMBSTONE) HASH_TOMBSTONE
  have hdead : ¬ LiveKey HASH_TOMBSTONE := fun hx => hx.2 rfl
  have hnot : t.key i ≠ HASH_TOMBSTONE := hlive.2
  refine ⟨h.shape.bury i _ _, ?_, ?_⟩
  · show t.count - 1 = (t.keys.set i HASH_TOMBSTONE).countP fun x => LiveKey x
    simp only [hlive, hdead, decide_true, decide_false, if_true, Bool.false_eq_true, if_false]
      at hlives
    rw [h.count]
    omega
  · show t.tombstones + 1 = (t.keys.set i HASH_TOMBSTONE).countP fun x => x = HASH_TOMBSTONE
    simp only [hnot, decide_true, decide_false, if_true, Bool.false_eq_true, if_false] at htombs
    rw [h.tombstones]
    omega

end

theorem slotCounts_empty {t : HashTable32} (hpow : ∃ e, t.capacity = 2 ^ e)
    (hkeys : t.keys = List.replicate t.capacity 0) (hvalues : t.values = List.replicate t.capacity 0)
    (hcount : t.count = 0) (htombs : t.tombstones = 0) : SlotCounts t := by
  refine ⟨⟨hpow, by simp [hkeys], by simp [hvalues]⟩, ?_, ?_⟩
  · rw [hcount, hkeys, eq_comm, List.countP_eq_zero]
    intro x hx
    rw [List.eq_of_mem_replicate hx]
    decide
  · rw [htombs, hkeys, eq_comm, List.countP_eq_zero]
    intro x hx
    rw [List.eq_of_mem_replicate hx]
    decide

/-! ## the calls -/

section
variable {t : HashTable32} {k : BitVec 32}

theorem SlotCounts.insert (h : SlotCounts t) (k : BitVec 32) (v : ℕ) :
    SlotCounts (hashTable32Insert t k v).1 := by
  rcases h.shape.insert_cases k v with ⟨rc, -, he, -⟩ | ⟨hk, -, n, -, hstop, -, he⟩
  · rw [he]
    exact h
  · rw [he]
    split_ifs with hkey
    · exact h.setValue _ v
    · exact h.put (pos_lt h.shape.pos n) hk (HashTable32.dead_of_insertStop hstop hkey) v

theorem SlotCounts.remove (h : SlotCounts t) (k : BitVec 32) :
    SlotCounts (hashTable32Remove t k).1 := by
  unfold hashTable32Remove
  split_ifs with hk
  · exact h
  · cases hl : hashTable32Lookup t k with
    | none => exact h
    | some i =>
      obtain ⟨hlive, hi, hkey⟩ := h.shape.lookup_some hl
      exact h.bury hi (hkey.symm ▸ hlive)

theorem SlotCounts.step {s : HashSys} (h : SlotCounts s.table) (op : HashOp) :
    SlotCounts (s.step op).table := by
  cases op with
  | insert k v => exact h.insert k v
  | remove k => exact h.remove k
  | lookup k => exact h
  | clear => exact slotCounts_empty h.shape.pow rfl rfl rfl rfl

theorem SlotCounts.step_capacity {s : HashSys} (h : SlotCounts s.table) (op : HashOp) :
    (s.step op).table.capacity = s.table.capacity := by
  cases op with
  | insert k v =>
    show (hashTable32Insert s.table k v).1.capacity = _
    rcases h.shape.insert_cases k v with ⟨rc, -, he, -⟩ | ⟨-, -, n, -, -, -, he⟩
    · rw [he]
    · rw [he]
      split_ifs
      · rfl
      · rfl
  | remove k =>
    show (hashTable32Remove s.table k).1.capacity = _
    unfold hashTable32Remove
    split_ifs
    · rfl
    · split
      · rfl
      · rfl
  | lookup k => rfl
  | clear => rfl

/-- The invariant of a run. -/
def HashSys.Slotted (e : ℕ) (s : HashSys) : Prop :=
  SlotCounts s.table ∧ s.table.capacity = 2 ^ e

theorem HashSys.Slotted.step {e : ℕ} {s : HashSys} (h : s.Slotted e) (op : HashOp) :
    (s.step op).Slotted e :=
  ⟨h.1.step op, (h.1.step_capacity op).trans h.2⟩

/-- A capacity that is a power of two and its three quarters are doubles. -/
theorem overloaded_iff {e : ℕ} (h : SlotCounts t) (he : t.capacity = 2 ^ e) :
    t.overloaded = true ↔ 3 * 2 ^ e ≤ 4 * round53 t.usedSlots := by
  have hone : round53 (2 ^ e) = 2 ^ e := by
    have := round53_mul_two_pow (m := 1) (by decide) e
    rwa [Nat.one_mul] at this
  unfold HashTable32.overloaded
  rw [decide_eq_true_iff, h.used, he, hone, round53_mul_two_pow (by decide) e]

theorem exists_empty_slot (h : SlotCounts t) (hload : t.overloaded = false) :
    ∃ i < t.capacity, t.key i = HASH_EMPTY_SLOT := by
  obtain ⟨e, he⟩ := h.shape.pow
  by_contra hno
  push Not at hno
  have hall : t.usedSlots = 2 ^ e := by
    rw [← he, ← h.shape.keys]
    refine List.countP_eq_length.mpr fun x hx => decide_eq_true ?_
    obtain ⟨i, hi, rfl⟩ := List.mem_iff_getElem.mp hx
    have hne := hno i (h.shape.keys ▸ hi)
    unfold HashTable32.key at hne
    rwa [List.getD_eq_getElem _ _ hi] at hne
  have hfull : t.overloaded = true := by
    rw [overloaded_iff h he, hall]
    have hone := round53_mul_two_pow (m := 1) (by decide) e
    rw [Nat.one_mul] at hone
    rw [hone]
    omega
  exact absurd (hfull.symm.trans hload) (by decide)

/-- **An insert** is done exactly when the load test lets it. -/
theorem SlotCounts.insert_succeeds_iff (h : SlotCounts t) (hk : LiveKey k) (v : ℕ) :
    (hashTable32Insert t k v).2 = 0 ↔ t.overloaded = false := by
  rcases h.shape.insert_cases k v with ⟨rc, hrc, he, hnone⟩ | ⟨-, hload, n, -, -, -, he⟩
  · rw [he]
    refine iff_of_false hrc fun hload => ?_
    -- the walk would have stopped at the slot that was never used
    obtain ⟨i, hi, hempty⟩ := exists_empty_slot h hload
    obtain ⟨n, hn, hpos⟩ := exists_pos (hash32Murmur3 k).toNat hi
    have hprobe : t.probe k n = i := hpos
    have hgo := hnone hk hload n hn
    rw [hprobe] at hgo
    exact of_decide_eq_false hgo (Or.inr (Or.inl hempty))
  · rw [he]
    refine iff_of_true ?_ hload
    split_ifs
    · rfl
    · rfl

end

/-- **Slots in use.**  After any run on a fresh table `count + tombstones` is the number of slots
that hold a key or a tombstone, and an insert of a key that the table accepts is done exactly when
that number, as a double, is less than three quarters of the capacity. -/
theorem hash_insert_succeeds_iff {e : ℕ} {t : HashTable32}
    (hinit : hashTable32Init (2 ^ e) true true = some t) (ops : List HashOp) {k : BitVec 32}
    (hk : LiveKey k) (v : ℕ) :
    let t' := (Runs.after HashSys.step ⟨t, fun _ => none⟩ ops).table
    t'.count + t'.tombstones = t'.usedSlots ∧
      ((hashTable32Insert t' k v).2 = 0 ↔ 4 * round53 t'.usedSlots < 3 * 2 ^ e) := by
  have hstart : (⟨t, fun _ => none⟩ : HashSys).Slotted e := by
    cases hinit
    exact ⟨slotCounts_empty ⟨e, rfl⟩ rfl rfl rfl rfl, rfl⟩
  obtain ⟨hcounts, hcap⟩ : (Runs.after HashSys.step ⟨t, fun _ => none⟩ ops).Slotted e :=
    Runs.inv_after (fun _ op h _ => h.step op) hstart
      (Runs.each_of_forall (P := fun _ _ => True) (fun _ _ => trivial) _ ops)
  refine ⟨hcounts.used, ?_⟩
  rw [hcounts.insert_succeeds_iff hk, Bool.eq_false_iff, Ne, overloaded_iff hcounts hcap, not_le]

/-- A key that is present gets a new value in a table that is half full. -/
theorem hash_insert_succeeds_two :
    let t' := (Runs.after HashSys.step ⟨(hashTable32Init (2 ^ 2) true true).get rfl, fun _ => none⟩
      [.insert 4 40, .insert 5 50]).table
    t'.count + t'.tombstones = t'.usedSlots ∧
      ((hashTable32Insert t' 4 41).2 = 0 ↔ 4 * round53 t'.usedSlots < 3 * 2 ^ 2) :=
  hash_insert_succeeds_iff rfl _ ⟨by decide, by decide⟩ 41

/-- Three keys come in a table of four slots, and the first is refused a new value; they go, and the
table, which holds no key, still refuses it. -/
theorem hash_insert_refused :
    ∃ (t : HashTable32) (ops : List HashOp) (gone : List HashOp),
      hashTable32Init (2 ^ 2) true true = some t ∧
      ((Runs.after HashSys.step ⟨t, fun _ => none⟩ ops).map 4).isSome ∧
      (hashTable32Insert (Runs.after HashSys.step ⟨t, fun _ => none⟩ ops).table 4 41).2 ≠ 0 ∧
      Set.ncard {k | ((Runs.after HashSys.step ⟨t, fun _ => none⟩ (ops ++ gone)).map k).isSome} = 0 ∧
      (hashTable32Insert (Runs.after HashSys.step ⟨t, fun _ => none⟩ (ops ++ gone)).table 4 41).2
        ≠ 0 := by
  refine ⟨(hashTable32Init (2 ^ 2) true true).get rfl, [.insert 4 40, .insert 5 50, .insert 6 60],
    [.remove 4, .remove 5, .remove 6], rfl, by decide, by decide, ?_, by decide⟩
  have hinv : (Runs.after HashSys.step ⟨(hashTable32Init (2 ^ 2) true true).get rfl, fun _ => none⟩
      [.insert 4 40, .insert 5 50, .insert 6 60, .remove 4, .remove 5, .remove 6]).Inv := by
    refine Runs.inv_after HashSys.inv_step (HashSys.inv_empty ⟨2, rfl⟩ rfl rfl rfl)
      ⟨?_, ?_, ?_, trivial, trivial, trivial, trivial⟩
    · intro _ _ n hn
      revert n
      decide
    · intro _ _ n hn
      revert n
      decide
    · intro _ _ n hn
      revert n
      decide
  exact hinv.count.symm.trans (by decide)

end Nomalloc
