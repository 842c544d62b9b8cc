import Nomalloc.Debug.LeakDetector
import Nomalloc.Lib.Runs

/-!
# The records of the leak detector

A history of calls on the detector (`LeakSys`), with the records that libc has handed out, the
pointers that are live in the program, and the pointer whose deallocation was reported last.

* `LeakLists`       the two lists share out the records, and the buckets hold those that are in use;
* `LeakInv`         the same with the number of records and the limit;
* `leak_records`    it holds in every state of every history.

The limit is tested only where a record is allocated: then the free list is empty, and `num_records`
is the number of all records.
-/

namespace Nomalloc

/-- A detector, the records that libc handed out for it, and what the program did. -/
structure LeakSys where
  detector : LeakDetector
  created : List ℕ
  live : List ℕ
  lastFreed : Option ℕ

inductive LeakOp where
  | enable (ok : Bool)
  | disable
  | clear
  | alloc (ptr size classIdx : ℕ) (arenaId : Int) (env : LeakEnv)
  | dealloc (ptr : ℕ)

/-- A report about this pointer is not dropped. -/
def LeakDetector.Listens (d : LeakDetector) (ptr : ℕ) : Prop :=
  d.enabled = true ∧ d.tracking = true ∧ ptr ≠ 0

instance (d : LeakDetector) (ptr : ℕ) : Decidable (d.Listens ptr) :=
  inferInstanceAs (Decidable (_ ∧ _ ∧ _))

/-- A call, what libc hands out for it, and what it reports. -/
def LeakSys.step (s : LeakSys) : LeakOp → LeakSys
  | .enable ok => { s with detector := (leakDetectorEnable s.detector ok).1, lastFreed := none }
  | .disable => { s with detector := (leakDetectorDisable s.detector).1, lastFreed := none }
  | .clear => { s with detector := leakDetectorClear s.detector, lastFreed := none }
  | .alloc ptr size classIdx arenaId env =>
    let d := s.detector
    { detector := leakDetectorRecordAlloc d ptr size classIdx arenaId env
      created := s.created ++
        if d.Listens ptr ∧ d.freeList = [] ∧ d.numRecords < d.maxRecords then env.malloc.toList
        else []
      live := ptr :: s.live
      lastFreed := none }
  | .dealloc ptr =>
    { s with
      detector := leakDetectorRecordDealloc s.detector ptr
      live := s.live.erase ptr
      lastFreed := if s.detector.Listens ptr then some ptr else none }

/-- The detector before `leak_detector_init`. -/
def LeakSys.init : LeakSys := ⟨LeakDetector.zero, [], [], none⟩

/-- libc hands out memory that is not in use. -/
def LeakSys.Legal (s : LeakSys) : LeakOp → Prop
  | .alloc _ _ _ _ env => ∀ a, env.malloc = some a → a ∉ s.created
  | _ => True

/-- The records, the lists and the table agree. -/
structure LeakSys.Consistent (s : LeakSys) : Prop where
  /-- every record is on exactly one of the two lists -/
  one_list : ∀ a, a ∈ s.created ↔
    (a ∈ s.detector.allocationList ∨ a ∈ s.detector.freeList)
  once : (s.detector.allocationList ++ s.detector.freeList).Nodup
  /-- the table holds the records of the allocation list, each in the bucket of its own pointer -/
  bucket : ∀ i a, a ∈ s.detector.hashTable i ↔
    a ∈ s.detector.allocationList ∧ leakHashIndex (s.detector.record a).ptr = i
  bucket_once : ∀ i, (s.detector.hashTable i).Nodup
  count : s.detector.numRecords = s.detector.allocationList.length
  limit : (s.detector.allocationList ++ s.detector.freeList).length ≤ s.detector.maxRecords

/-! ## the lists and the table -/

/-- The two lists share out the records, and the buckets hold those on the allocation list. -/
structure LeakLists (d : LeakDetector) (created : List ℕ) : Prop where
  shared : (d.allocationList ++ d.freeList).Perm created
  nodup : created.Nodup
  bucket : ∀ i a, a ∈ d.hashTable i ↔
    a ∈ d.allocationList ∧ leakHashIndex (d.record a).ptr = i
  bucketNodup : ∀ i, (d.hashTable i).Nodup

section
variable {d : LeakDetector} {created : List ℕ} {a ptr : ℕ}

namespace LeakLists

theorem once (h : LeakLists d created) : (d.allocationList ++ d.freeList).Nodup :=
  h.shared.nodup_iff.mpr h.nodup

/-- A record leaves the table and goes from the allocation list to the free list. -/
theorem retire (h : LeakLists d created) (ha : a ∈ d.allocationList) :
    LeakLists ((d.unhash a).retire a) created := by
  have hnd := h.once
  have hmem : ∀ b, b ∈ d.allocationList.erase a ↔ b ≠ a ∧ b ∈ d.allocationList :=
    fun b => hnd.of_append_left.mem_erase_iff
  refine ⟨?_, h.nodup, fun i b => ?_, fun i => (h.bucketNodup i).erase a⟩
  · show (d.allocationList.erase a ++ (d.freeList ++ [a])).Perm created
    refine List.Perm.trans ?_ h.shared
    rw [← List.append_assoc]
    refine (List.perm_append_singleton a _).trans ?_
    exact ((List.perm_cons_erase ha).symm.append_right d.freeList)
  · show b ∈ (d.hashTable i).erase a ↔
      b ∈ d.allocationList.erase a ∧ leakHashIndex (d.record b).ptr = i
    rw [(h.bucketNodup i).mem_erase_iff, h.bucket, hmem, and_assoc]

theorem write (h : LeakLists d created) (ha : a ∉ d.allocationList) (r : AllocationRecord) :
    LeakLists { d with record := Function.update d.record a r } created := by
  refine ⟨h.shared, h.nodup, fun i b => ?_, h.bucketNodup⟩
  show b ∈ d.hashTable i ↔
    b ∈ d.allocationList ∧ leakHashIndex (Function.update d.record a r b).ptr = i
  by_cases hb : b = a
  · subst hb
    rw [h.bucket]
    exact iff_of_false (fun hin => ha hin.1) fun hin => ha hin.1
  · rw [Function.update_of_ne hb]
    exact h.bucket i b

theorem setCounts (h : LeakLists d created) (n m : ℕ) : LeakLists (d.setCounts n m) created :=
  ⟨h.shared, h.nodup, h.bucket, h.bucketNodup⟩

theorem notMem_retire (h : LeakLists d created) :
    a ∉ ((d.unhash a).retire a).allocationList := by
  show a ∉ d.allocationList.erase a
  intro hin
  exact (h.once.of_append_left.mem_erase_iff.mp hin).1 rfl

/-- **A record is put to use**: one that is on neither list. -/
theorem add (h : (a :: (d.allocationList ++ d.freeList)).Perm created) (hnd : created.Nodup)
    (hbucket : ∀ i b, b ∈ d.hashTable i ↔
      b ∈ d.allocationList ∧ leakHashIndex (d.record b).ptr = i)
    (hone : ∀ i, (d.hashTable i).Nodup) (r : AllocationRecord) :
    LeakLists (leakAddRecord d a r) created := by
  have hnot : a ∉ d.allocationList := by
    have hcons := h.nodup_iff.mpr hnd
    exact fun hin => (List.nodup_cons.mp hcons).1 (List.mem_append_left _ hin)
  have hother : ∀ b, b ≠ a → (leakAddRecord d a r).record b = d.record b :=
    fun b hb => Function.update_of_ne hb ..
  have hself : (leakAddRecord d a r).record a = r := Function.update_self ..
  have htable : ∀ i, (leakAddRecord d a r).hashTable i =
      if i = leakHashIndex r.ptr then a :: d.hashTable i else d.hashTable i := by
    intro i
    show Function.update d.hashTable _ _ i = _
    by_cases hi : i = leakHashIndex r.ptr
    · rw [if_pos hi, hi, Function.update_self]
    · rw [if_neg hi, Function.update_of_ne hi]
  refine ⟨?_, hnd, fun i b => ?_, fun i => ?_⟩
  · show (d.allocationList ++ [a] ++ d.freeList).Perm created
    rw [List.append_assoc]
    exact List.perm_middle.trans h
  · show _ ↔ b ∈ d.allocationList ++ [a] ∧ _
    rw [htable, List.mem_append, List.mem_singleton]
    by_cases hb : b = a
    · subst hb
      rw [hself]
      by_cases hi : i = leakHashIndex r.ptr
      · rw [if_pos hi]
        exact iff_of_true List.mem_cons_self ⟨Or.inr rfl, hi.symm⟩
      · rw [if_neg hi, hbucket]
        exact iff_of_false (fun hin => hnot hin.1) fun hin => hi hin.2.symm
    · rw [hother b hb]
      have hbi : (b ∈ if i = leakHashIndex r.ptr then a :: d.hashTable i else d.hashTable i) ↔
          b ∈ d.hashTable i := by
        split_ifs
        · rw [List.mem_cons, or_iff_right hb]
        · exact Iff.rfl
      rw [hbi, hbucket, or_iff_left hb]
  · rw [htable]
    split_ifs
    · exact List.nodup_cons.mpr ⟨fun hin => hnot ((hbucket i a).mp hin).1, hone i⟩
    · exact hone i

/-- The search finds a record of the pointer, if one is in use. -/
theorem find (h : LeakLists d created) (ptr : ℕ) :
    (leakFindRecord d ptr = none ∧ ∀ a ∈ d.allocationList, (d.record a).ptr ≠ ptr) ∨
      ∃ a ∈ d.allocationList, (d.record a).ptr = ptr ∧ leakFindRecord d ptr = some a := by
  unfold leakFindRecord
  cases hf : (d.hashTable (leakHashIndex ptr)).find? fun a => (d.record a).ptr = ptr with
  | none =>
    refine Or.inl ⟨rfl, fun a ha he => ?_⟩
    have hin := (h.bucket (leakHashIndex ptr) a).mpr ⟨ha, by rw [he]⟩
    exact absurd (decide_eq_true he) (List.find?_eq_none.mp hf a hin)
  | some a =>
    have hin := (h.bucket _ a).mp (List.mem_of_find?_eq_some hf)
    have hptr : (d.record a).ptr = ptr := by simpa using List.find?_some hf
    exact Or.inr ⟨a, hin.1, hptr, rfl⟩

end LeakLists

/-! ## the loop of `leak_detector_clear` -/

theorem clear_loop {as : List ℕ} (h : LeakLists d created) (has : d.allocationList = as) :
    let d' := as.foldl (fun d a => (d.unhash a).retire a) d
    LeakLists d' created ∧ d'.allocationList = [] ∧ d'.maxRecords = d.maxRecords ∧
      d'.enabled = d.enabled := by
  induction as generalizing d with
  | nil => exact ⟨h, has, rfl, rfl⟩
  | cons a as ih =>
    have hretire := h.retire (has ▸ List.mem_cons_self)
    have hrest : ((d.unhash a).retire a).allocationList = as := by
      show d.allocationList.erase a = as
      rw [has, List.erase_cons_head]
    exact ih hretire hrest

end

/-! ## the invariant -/

/-- The records and the limit.  Before the detector is enabled there are none. -/
structure LeakInv (s : LeakSys) : Prop where
  lists : LeakLists s.detector s.created
  count : s.detector.numRecords = s.detector.allocationList.length
  limit : s.created.length ≤ s.detector.maxRecords
  word : s.detector.maxRecords ≤ LEAK_DETECTOR_MAX_ALLOCATIONS
  off : s.detector.enabled = false → s.created = []

namespace LeakInv

variable {s : LeakSys} {ptr : ℕ}

theorem consistent (h : LeakInv s) : s.Consistent := by
  refine ⟨fun a => ?_, h.lists.once, h.lists.bucket, h.lists.bucketNodup, h.count, ?_⟩
  · rw [← List.mem_append, h.lists.shared.mem_iff]
  · rw [h.lists.shared.length_eq]
    exact h.limit

theorem length_le (h : LeakInv s) :
    s.detector.allocationList.length + s.detector.freeList.length ≤
      LEAK_DETECTOR_MAX_ALLOCATIONS := by
  have hle := h.limit.trans h.word
  rwa [← h.lists.shared.length_eq, List.length_append] at hle

end LeakInv

theorem leakLists_nil {d : LeakDetector} (halloc : d.allocationList = []) (hfree : d.freeList = [])
    (hhash : d.hashTable = fun _ => []) : LeakLists d [] := by
  refine ⟨by rw [halloc, hfree]; rfl, List.nodup_nil, fun i a => ?_, fun i => ?_⟩
  · rw [halloc, hhash]
    exact iff_of_false List.not_mem_nil fun hin => List.not_mem_nil hin.1
  · rw [hhash]
    exact List.nodup_nil

theorem leakInv_init : LeakInv LeakSys.init :=
  ⟨leakLists_nil rfl rfl rfl, rfl, Nat.le_refl 0, Nat.zero_le _, fun _ => rfl⟩

/-! ## the calls -/

/-- A report of an allocation gets a record: one off the free list, or a new one below the limit. -/
def LeakDetector.HasRecord (d : LeakDetector) (env : LeakEnv) : Prop :=
  d.freeList ≠ [] ∨ d.numRecords < d.maxRecords ∧ env.malloc.isSome

instance (d : LeakDetector) (env : LeakEnv) : Decidable (d.HasRecord env) :=
  inferInstanceAs (Decidable (_ ∨ _ ∧ _))

/-- **`leak_detector_record_alloc`** does nothing, or writes and links a record. -/
theorem leakDetectorRecordAlloc_cases (d : LeakDetector) (ptr size classIdx : ℕ) (arenaId : Int)
    (env : LeakEnv) :
    (¬ (d.Listens ptr ∧ d.HasRecord env) ∧
      leakDetectorRecordAlloc d ptr size classIdx arenaId env = d) ∨
    (d.Listens ptr ∧ ∃ a rest r, d.freeList = a :: rest ∧ (r.ptr = ptr ∧ r.size = size) ∧
      leakDetectorRecordAlloc d ptr size classIdx arenaId env =
        leakAddRecord { d with freeList := rest } a r) ∨
    (d.Listens ptr ∧ d.freeList = [] ∧ d.numRecords < d.maxRecords ∧
      ∃ a r, env.malloc = some a ∧ (r.ptr = ptr ∧ r.size = size) ∧
        leakDetectorRecordAlloc d ptr size classIdx arenaId env = leakAddRecord d a r) := by
  unfold leakDetectorRecordAlloc
  by_cases hl : d.Listens ptr
  swap
  · refine Or.inl ⟨fun hh => hl hh.1, if_pos ?_⟩
    by_contra hno
    simp only [not_or, Bool.not_eq_true', Bool.not_eq_false] at hno
    exact hl hno
  have hno : ¬ (!d.enabled ∨ !d.tracking ∨ ptr = 0) := by
    obtain ⟨h1, h2, h3⟩ := hl
    simp [h1, h2, h3]
  rw [if_neg hno]
  unfold leakTakeRecord
  cases hfree : d.freeList with
  | cons a rest => exact Or.inr (Or.inl ⟨hl, a, rest, _, rfl, ⟨rfl, rfl⟩, rfl⟩)
  | nil =>
    dsimp only
    by_cases hnum : d.numRecords < d.maxRecords
    · rw [if_pos hnum]
      cases hm : env.malloc with
      | none =>
        refine Or.inl ⟨fun hh => ?_, rfl⟩
        rcases hh.2 with hh | hh
        · exact hh hfree
        · rw [hm] at hh
          exact Bool.false_ne_true hh.2
      | some a => exact Or.inr (Or.inr ⟨hl, rfl, hnum, a, _, rfl, ⟨rfl, rfl⟩, rfl⟩)
    · rw [if_neg hnum]
      refine Or.inl ⟨fun hh => ?_, rfl⟩
      exact hh.2.elim (fun hne => hne hfree) fun hh => hnum hh.1

/-- **`leak_detector_record_dealloc`** does nothing, or retires the record it finds. -/
theorem leakDetectorRecordDealloc_cases (d : LeakDetector) (ptr : ℕ) :
    (¬ d.Listens ptr ∧ leakDetectorRecordDealloc d ptr = d) ∨
    (d.Listens ptr ∧ leakFindRecord d ptr = none ∧ leakDetectorRecordDealloc d ptr = d) ∨
    (d.Listens ptr ∧ ∃ a, leakFindRecord d ptr = some a ∧
      leakDetectorRecordDealloc d ptr = (((d.unhash a).blank a).retire a).countDealloc) := by
  unfold leakDetectorRecordDealloc
  by_cases hl : d.Listens ptr
  swap
  · refine Or.inl ⟨hl, if_pos ?_⟩
    by_contra hno
    simp only [not_or, Bool.not_eq_true', Bool.not_eq_false] at hno
    exact hl hno
  have hno : ¬ (!d.enabled ∨ !d.tracking ∨ ptr = 0) := by
    obtain ⟨h1, h2, h3⟩ := hl
    simp [h1, h2, h3]
  rw [if_neg hno]
  cases hf : leakFindRecord d ptr with
  | none => exact Or.inr (Or.inl ⟨hl, rfl, rfl⟩)
  | some a => exact Or.inr (Or.inr ⟨hl, a, rfl, rfl⟩)

theorem map_record_add {d : LeakDetector} {a : ℕ} {β : Type*} (f : AllocationRecord → β)
    (ha : a ∉ d.allocationList) (r : AllocationRecord) :
    ((leakAddRecord d a r).allocationList.map fun b => f ((leakAddRecord d a r).record b)) =
      (d.allocationList.map fun b => f (d.record b)) ++ [f r] := by
  show (d.allocationList ++ [a]).map (fun b => f (Function.update d.record a r b)) = _
  rw [List.map_append, List.map_singleton, Function.update_self]
  congr 1
  refine List.map_congr_left fun b hb => ?_
  rw [Function.update_of_ne (by rintro rfl; exact ha hb)]

theorem map_record_retire {d : LeakDetector} {created : List ℕ} {a : ℕ} {β : Type*}
    (f : AllocationRecord → β) (h : LeakLists d created) (n m : ℕ) :
    ((((d.unhash a).blank a).retire a).setCounts n m).allocationList.map
        (fun b => f (((((d.unhash a).blank a).retire a).setCounts n m).record b)) =
      (d.allocationList.erase a).map fun b => f (d.record b) := by
  show (d.allocationList.erase a).map
    (fun b => f (Function.update d.record a { d.record a with ptr := 0, size := 0 } b)) = _
  refine List.map_congr_left fun b hb => ?_
  rw [Function.update_of_ne (h.once.of_append_left.mem_erase_iff.mp hb).1]

namespace LeakInv

variable {s : LeakSys}

/-- **A report of an allocation** is dropped, or puts a record to use that was not. -/
theorem alloc_adds (h : LeakInv s) {ptr size classIdx : ℕ} {arenaId : Int} {env : LeakEnv}
    (hlegal : s.Legal (.alloc ptr size classIdx arenaId env)) :
    (¬ (s.detector.Listens ptr ∧ s.detector.HasRecord env) ∧
      leakDetectorRecordAlloc s.detector ptr size classIdx arenaId env = s.detector) ∨
    ((s.detector.Listens ptr ∧ s.detector.HasRecord env) ∧ ∃ rest a r,
      a ∉ s.detector.allocationList ∧ (r.ptr = ptr ∧ r.size = size) ∧
      leakDetectorRecordAlloc s.detector ptr size classIdx arenaId env =
        leakAddRecord { s.detector with freeList := rest } a r) := by
  rcases leakDetectorRecordAlloc_cases s.detector ptr size classIdx arenaId env with
    hno | ⟨hl, a, rest, r, hfree, hr, hd⟩ | ⟨hl, hfree, hnum, a, r, hm, hr, hd⟩
  · exact Or.inl hno
  · have hhas : s.detector.HasRecord env := Or.inl (by rw [hfree]; simp)
    refine Or.inr ⟨⟨hl, hhas⟩, rest, a, r, fun hin => ?_, hr, hd⟩
    have hnd := h.lists.once
    rw [hfree] at hnd
    exact (List.nodup_append.mp hnd).2.2 a hin a List.mem_cons_self rfl
  · have hhas : s.detector.HasRecord env := Or.inr ⟨hnum, by rw [hm]; rfl⟩
    refine Or.inr ⟨⟨hl, hhas⟩, s.detector.freeList, a, r, fun hin => ?_, hr, hd⟩
    exact hlegal a hm (h.lists.shared.mem_iff.mp (List.mem_append_left _ hin))

/-- **A report of a deallocation** retires a record of the pointer; where it is dropped, it is not
heard, or the pointer has no record. -/
theorem dealloc_retires (h : LeakInv s) (ptr : ℕ) :
    leakDetectorRecordDealloc s.detector ptr = s.detector ∧ (s.detector.Listens ptr →
        ∀ a ∈ s.detector.allocationList, (s.detector.record a).ptr ≠ ptr) ∨
      ∃ a ∈ s.detector.allocationList, (s.detector.record a).ptr = ptr ∧
        leakDetectorRecordDealloc s.detector ptr =
          (((s.detector.unhash a).blank a).retire a).countDealloc := by
  rcases leakDetectorRecordDealloc_cases s.detector ptr with
    ⟨hl, hd⟩ | ⟨-, hf, hd⟩ | ⟨-, a, hf, hd⟩
  · exact Or.inl ⟨hd, fun hyes => absurd hyes hl⟩
  · refine Or.inl ⟨hd, fun _ => ?_⟩
    rcases h.lists.find ptr with ⟨-, hall⟩ | ⟨b, -, -, hsome⟩
    · exact hall
    · rw [hf] at hsome
      exact absurd hsome (by simp)
  · rcases h.lists.find ptr with ⟨hnone, -⟩ | ⟨b, hb, hbp, hsome⟩
    · rw [hf] at hnone
      exact absurd hnone (by simp)
    · have hba : b = a := Option.some.inj (hsome.symm.trans hf)
      subst hba
      exact Or.inr ⟨b, hb, hbp, hd⟩

theorem enable (h : LeakInv s) (ok : Bool) : LeakInv (s.step (.enable ok)) := by
  cases hon : s.detector.enabled with
  | true =>
    have hd : (leakDetectorEnable s.detector ok).1 = { s.detector with
        tracking := true, stats := { s.detector.stats with trackingActive := true } } := by
      unfold leakDetectorEnable
      rw [if_neg (by rw [hon]; decide)]
    show LeakInv { s with detector := (leakDetectorEnable s.detector ok).1, lastFreed := none }
    rw [hd]
    exact ⟨⟨h.lists.shared, h.lists.nodup, h.lists.bucket, h.lists.bucketNodup⟩, h.count, h.limit,
      h.word, h.off⟩
  | false =>
    -- the detector is set up: there are no records
    have hd : ∃ e, (leakDetectorEnable s.detector ok).1 = { LeakDetector.zero with
        maxRecords := LEAK_DETECTOR_MAX_ALLOCATIONS, enabled := e } := by
      unfold leakDetectorEnable leakDetectorInit
      rw [hon]
      cases ok
      · exact ⟨false, rfl⟩
      · exact ⟨true, rfl⟩
    obtain ⟨e, hd⟩ := hd
    have hnone := h.off hon
    show LeakInv { s with detector := (leakDetectorEnable s.detector ok).1, lastFreed := none }
    rw [hd]
    refine ⟨?_, rfl, ?_, Nat.le_refl _, fun _ => hnone⟩
    · show LeakLists _ s.created
      rw [hnone]
      exact leakLists_nil rfl rfl rfl
    · show s.created.length ≤ _
      rw [hnone]
      exact Nat.zero_le _

theorem disable (h : LeakInv s) : LeakInv (s.step .disable) := by
  show LeakInv { s with detector := (leakDetectorDisable s.detector).1, lastFreed := none }
  unfold leakDetectorDisable
  split_ifs
  all_goals
    exact ⟨⟨h.lists.shared, h.lists.nodup, h.lists.bucket, h.lists.bucketNodup⟩, h.count, h.limit,
      h.word, h.off⟩

theorem clear (h : LeakInv s) : LeakInv (s.step .clear) := by
  obtain ⟨hlists, hnil, hmax, hon⟩ := clear_loop h.lists rfl
  refine ⟨⟨hlists.shared, hlists.nodup, hlists.bucket, hlists.bucketNodup⟩, ?_, ?_, ?_, ?_⟩
  · exact (congrArg List.length hnil).symm
  · exact h.limit.trans hmax.ge
  · exact hmax.le.trans h.word
  · exact fun hoff => h.off (hon.symm.trans hoff)

theorem alloc (h : LeakInv s) {ptr size classIdx : ℕ} {arenaId : Int} {env : LeakEnv}
    (hlegal : s.Legal (.alloc ptr size classIdx arenaId env)) :
    LeakInv (s.step (.alloc ptr size classIdx arenaId env)) := by
  have hle := h.length_le
  have hmax : LEAK_DETECTOR_MAX_ALLOCATIONS = 100000 := rfl
  have hcount : addW s.detector.numRecords 1 = s.detector.allocationList.length + 1 := by
    rw [h.count]
    exact addW_eq (by rw [wordSize_eq]; omega)
  have hlen : ∀ a : ℕ, (s.detector.allocationList ++ [a]).length =
      s.detector.allocationList.length + 1 := fun a => List.length_append
  unfold LeakSys.step
  dsimp only
  rcases leakDetectorRecordAlloc_cases s.detector ptr size classIdx arenaId env with
    ⟨hno, hd⟩ | ⟨-, a, rest, r, hfree, -, hd⟩ | ⟨hl, hfree, hnum, a, r, hm, -, hd⟩
  · have hsame : (if s.detector.Listens ptr ∧ s.detector.freeList = [] ∧
        s.detector.numRecords < s.detector.maxRecords then env.malloc.toList else []) = [] := by
      split_ifs with hcalls
      · cases hm : env.malloc with
        | none => rfl
        | some a => exact absurd ⟨hcalls.1, Or.inr ⟨hcalls.2.2, by rw [hm]; rfl⟩⟩ hno
      · rfl
    rw [hd, hsame, List.append_nil]
    exact ⟨h.lists, h.count, h.limit, h.word, h.off⟩
  · rw [if_neg (fun hcalls => absurd hcalls.2.1 (by rw [hfree]; simp)), List.append_nil, hd]
    have hperm := h.lists.shared
    rw [hfree] at hperm
    have hadd := LeakLists.add (d := { s.detector with freeList := rest })
      (List.perm_middle.symm.trans hperm) h.lists.nodup h.lists.bucket h.lists.bucketNodup r
    exact ⟨hadd, hcount.trans (hlen a).symm, h.limit, h.word, h.off⟩
  · rw [if_pos ⟨hl, hfree, hnum⟩, hm, hd]
    have hperm := h.lists.shared
    have hnew : a ∉ s.created := hlegal a hm
    have hnd := (List.perm_append_singleton a s.created).nodup_iff.mpr
      (List.nodup_cons.mpr ⟨hnew, h.lists.nodup⟩)
    have hadd := LeakLists.add (d := s.detector)
      ((hperm.cons a).trans (List.perm_append_singleton a s.created).symm) hnd h.lists.bucket
      h.lists.bucketNodup r
    refine ⟨hadd, hcount.trans (hlen a).symm, ?_, h.word, fun hoff => ?_⟩
    · -- the free list is empty, so `num_records` counts all the records
      have hall := hperm.length_eq
      rw [hfree, List.append_nil, ← h.count] at hall
      show (s.created ++ [a]).length ≤ s.detector.maxRecords
      rw [List.length_append, List.length_singleton, ← hall]
      exact hnum
    · exact absurd (hoff.symm.trans hl.1) Bool.false_ne_true

theorem withCounts {d : LeakDetector} {created live : List ℕ} {last : Option ℕ} {n m : ℕ}
    (hlists : LeakLists d created) (hn : n = d.allocationList.length)
    (hlimit : created.length ≤ d.maxRecords) (hword : d.maxRecords ≤ LEAK_DETECTOR_MAX_ALLOCATIONS)
    (hoff : d.enabled = false → created = []) : LeakInv ⟨d.setCounts n m, created, live, last⟩ :=
  ⟨hlists.setCounts n m, hn, hlimit, hword, hoff⟩

theorem dealloc (h : LeakInv s) (ptr : ℕ) : LeakInv (s.step (.dealloc ptr)) := by
  have hmax : LEAK_DETECTOR_MAX_ALLOCATIONS = 100000 := rfl
  have hle := h.length_le
  unfold LeakSys.step
  dsimp only
  rcases h.dealloc_retires ptr with ⟨hd, -⟩ | ⟨b, hb, -, hd⟩
  · rw [hd]
    exact ⟨h.lists, h.count, h.limit, h.word, h.off⟩
  · rw [hd]
    have hwrite := (h.lists.retire hb).write h.lists.notMem_retire
      { s.detector.record b with ptr := 0, size := 0 }
    have hpos := List.length_pos_of_mem hb
    have hcount : subW s.detector.numRecords 1 = (s.detector.allocationList.erase b).length := by
      rw [List.length_erase_of_mem hb, h.count]
      exact subW_eq hpos (by rw [wordSize_eq]; omega)
    exact withCounts ⟨hwrite.shared, hwrite.nodup, hwrite.bucket, hwrite.bucketNodup⟩ hcount
      h.limit h.word h.off

/-- **Step lemma.** -/
theorem step (h : LeakInv s) {op : LeakOp} (hlegal : s.Legal op) : LeakInv (s.step op) := by
  cases op with
  | enable ok => exact h.enable ok
  | disable => exact h.disable
  | clear => exact h.clear
  | alloc ptr size classIdx arenaId env => exact h.alloc hlegal
  | dealloc ptr => exact h.dealloc ptr

end LeakInv

/-- **The records of the leak detector**, in every state of every history of calls. -/
theorem leak_records (ops : List LeakOp)
    (hlegal : Runs.Each LeakSys.step LeakSys.Legal LeakSys.init ops) :
    Runs.Always LeakSys.step LeakSys.Consistent LeakSys.init ops := by
  have hrun : Runs.Always LeakSys.step LeakInv LeakSys.init ops :=
    Runs.inv_always (fun s op h hop => h.step hop) leakInv_init hlegal
  exact hrun.mono fun s h => h.consistent

/-- libc hands out the record at `a`. -/
def leakEnvAt (a : ℕ) : LeakEnv := ⟨some a, 1, 0, []⟩

/-- Set up, enable, record two allocations, report one of them freed, and clear. -/
theorem leak_records_two : Runs.Always LeakSys.step LeakSys.Consistent LeakSys.init
    [.enable true, .enable true, .alloc 0x1000 16 1 0 (leakEnvAt 0x500000),
      .alloc 0x2000 32 2 0 (leakEnvAt 0x500100), .dealloc 0x1000, .clear] := by
  refine leak_records _ ⟨trivial, trivial, ?_, ?_, trivial, trivial, trivial⟩
  · intro a ha
    exact List.not_mem_nil
  · intro a ha
    cases ha
    show 0x500100 ∉ [0x500000]
    decide

end Nomalloc
