import Nomalloc.Cache.LirsContents
import Nomalloc.Cache.LirsResize
import Nomalloc.Memory.ArenaServe

/-!
# `cache/lirs/lirs_manager.c`

One LIRS cache for each size class.  `lirs_manager_put` keeps a pointer under itself as key, in the
bin of the class of its size; `lirs_manager_remove` is given the pointer alone and takes the class
from the address, the first class whose block size divides the offset in the chunk.

* `lirsManagerInit`, `lirsManagerShutdown`, `lirsManagerConfigure`
* `lirsManagerGet`, `lirsManagerPut`, `lirsManagerRemove`
* `BinOk`                  what holds of the cache of a bin after every call;
* `manager_removes_iff`    a small block is removed from its bin exactly when it is of at most eight
                           bytes and in no other bin.

The spinlocks are left out.  What `lirs_manager_remove` reads of a chunk comes from the memory of the
arena; `lirs_manager_init` that fails is `none`, as is a `lirs_resize` that does not end.
-/

namespace Nomalloc

def LIRS_BIN_CAPACITY_SMALL : ℕ := 64
def LIRS_BIN_CAPACITY_MEDIUM : ℕ := 32
def LIRS_BIN_CAPACITY_LARGE : ℕ := 16

/-- `struct lirs_manager`: the caches of the bins (`NULL` is `none`) and the two counters. -/
structure LirsManager where
  bins : ℕ → Option LirsCache
  hits : ℕ
  misses : ℕ

/-- `get_bin_capacity` -/
def getBinCapacity (c : ℕ) : ℕ :=
  if isSmallClassIdx c then LIRS_BIN_CAPACITY_SMALL
  else if isMediumClassIdx c then LIRS_BIN_CAPACITY_MEDIUM
  else LIRS_BIN_CAPACITY_LARGE

/-- `get_bin_max_size` -/
def getBinMaxSize (c : ℕ) : ℕ := getBinCapacity c * classToSize c

/-- The cache that `lirs_manager_init` makes for a bin; `ok` says which of its two allocations
succeed. -/
def binCreate (ok : ℕ → Bool × Bool) (c : ℕ) : Option LirsCache :=
  (lirsCreate (getBinCapacity c) (getBinMaxSize c) (ok c).1 (ok c).2).map
    fun cache => lirsSetEvictCallback cache true

/-- `lirs_manager_init` -/
def lirsManagerInit (ok : ℕ → Bool × Bool) : Option LirsManager :=
  if ∀ c < NUM_SIZE_CLASSES, (binCreate ok c).isSome then
    some ⟨fun c => if isLargeClassIdx c then none else binCreate ok c, 0, 0⟩
  else none

/-- `lirs_manager_shutdown` -/
def lirsManagerShutdown (m : LirsManager) : LirsManager := { m with bins := fun _ => none }

/-- `lirs_manager_configure` on one bin. -/
def binConfigure (rounds c : ℕ) : Option LirsCache → Option (Option LirsCache)
  | none => some none
  | some cache => (lirsResize rounds cache (getBinCapacity c)).map some

/-- `lirs_manager_configure` -/
def lirsManagerConfigure (rounds : ℕ) (m : LirsManager) : Option LirsManager :=
  if ∀ c < NUM_SIZE_CLASSES, (binConfigure rounds c (m.bins c)).isSome then
    some { m with bins := fun c => (binConfigure rounds c (m.bins c)).getD none }
  else none

/-- A store to the cache of a bin. -/
def LirsManager.setBin (m : LirsManager) (c : ℕ) (cache : LirsCache) : LirsManager :=
  { m with bins := Function.update m.bins c (some cache) }

/-- `lirs_manager_get`: `NULL` is zero. -/
def lirsManagerGet (m : LirsManager) (size : ℕ) : LirsManager × ℕ :=
  let c := sizeToClass size
  if isLargeClassIdx c then ({ m with misses := m.misses + 1 }, 0)
  else
    match m.bins c with
    | none => ({ m with misses := m.misses + 1 }, 0)
    | some cache =>
      let r := lirsGet cache size
      let m := m.setBin c r.1
      (if r.2 ≠ 0 then { m with hits := m.hits + 1 } else { m with misses := m.misses + 1 }, r.2)

/-- `lirs_manager_put`; `mem` is the answer of `malloc` in `lirs_put`. -/
def lirsManagerPut (m : LirsManager) (ptr size : ℕ) (mem : Option ℕ) : LirsManager × Int :=
  if ptr = 0 then (m, -1)
  else
    let c := sizeToClass size
    if isLargeClassIdx c then (m, -2)
    else
      match m.bins c with
      | none => (m, -3)
      | some cache =>
        let r := lirsPut cache ptr ptr (classToSize c) mem
        (m.setBin c r.1, r.2)

/-- The loop of `lirs_manager_remove` over the size classes.  It does not skip the class of size
zero: it divides by zero there, which is `none`. -/
def lirsManagerClass (chunk : Chunk) (ptr : ℕ) : Option ℕ :=
  let offset := subW ptr chunk.baseAddr
  match (List.range NUM_SIZE_CLASSES).find? fun i =>
    classToSize i = 0 ∨ offset % classToSize i = 0 ∧ offset < chunk.size with
  | some i => if classToSize i = 0 then none else some i
  | none => some 0

/-- `lirs_manager_remove` once the class is known. -/
def lirsManagerRemoveFrom (m : LirsManager) (ptr c : ℕ) : LirsManager × Int :=
  if isLargeClassIdx c then (m, -2)
  else
    match m.bins c with
    | none => (m, -3)
    | some cache =>
      let r := lirsRemove cache ptr
      (m.setBin c r.1, r.2)

/-- `lirs_manager_remove` -/
def lirsManagerRemove (m : LirsManager) (chunk : ℕ → Chunk) (ptr : ℕ) :
    Option (LirsManager × Int) :=
  if ptr = 0 then some (m, -1)
  else (lirsManagerClass (chunk (ptrToChunk ptr)) ptr).map (lirsManagerRemoveFrom m ptr)

/-- `lirs_contains` on the cache of a bin. -/
def LirsManager.contains (m : LirsManager) (c ptr : ℕ) : Bool :=
  match m.bins c with
  | none => false
  | some cache => lirsContains cache ptr

inductive ManagerOp where
  | init (ok : ℕ → Bool × Bool)
  | shutdown
  | configure (rounds : ℕ)
  | get (size : ℕ)
  | put (ptr size : ℕ) (mem : Option ℕ)
  | remove (chunk : ℕ → Chunk) (ptr : ℕ)

def LirsManager.step (m : LirsManager) : ManagerOp → LirsManager
  | .init ok => (lirsManagerInit ok).getD m
  | .shutdown => lirsManagerShutdown m
  | .configure rounds => (lirsManagerConfigure rounds m).getD m
  | .get size => (lirsManagerGet m size).1
  | .put ptr size mem => (lirsManagerPut m ptr size mem).1
  | .remove chunk ptr => ((lirsManagerRemove m chunk ptr).map Prod.fst).getD m

/-- `malloc` answers with memory that is not in use, and the call returns. -/
def ManagerOp.Legal (m : LirsManager) : ManagerOp → Prop
  | .init ok => (lirsManagerInit ok).isSome
  | .configure rounds => (lirsManagerConfigure rounds m).isSome
  | .put _ _ mem => ∀ p, mem = some p → ∀ c cache, m.bins c = some cache → p ∉ cache.heap
  | .remove chunk ptr => (lirsManagerRemove m chunk ptr).isSome
  | .shutdown | .get _ => True

/-- What is asked of `lirs_manager_remove`: it returns 0, the pointer is in no bin after it, and no
bin but `c` has changed. -/
def RemovesFrom (m : LirsManager) (chunk : ℕ → Chunk) (ptr c : ℕ) : Prop :=
  ∃ m', lirsManagerRemove m chunk ptr = some (m', 0) ∧
    (∀ i < NUM_SIZE_CLASSES, m'.contains i ptr = false) ∧ ∀ i, i ≠ c → m'.bins i = m.bins i

/-- The cache of a bin: it is well formed, and what it keeps is its own key. -/
structure BinOk (cache : LirsCache) : Prop where
  ready : LirsReady cache
  keyed : HoldsLatest cache some

/-- The caches of the bins are well formed. -/
def LirsManager.Ok (m : LirsManager) : Prop := ∀ c cache, m.bins c = some cache → BinOk cache

/-! ## the cache of a bin -/

section
variable {cache cache' : LirsCache} {c key ptr size : ℕ}

namespace BinOk

theorem upkeep (h : BinOk cache) (hready : LirsReady cache') (hup : Upkeep cache cache') :
    BinOk cache' := ⟨hready, h.keyed.upkeep hup⟩

theorem create {ok : ℕ → Bool × Bool} (hc : binCreate ok c = some cache) : BinOk cache := by
  obtain ⟨fresh, hfresh, rfl⟩ := Option.map_eq_some_iff.mp hc
  refine ⟨lirsCreate_ready hfresh true, fun p hp => ?_⟩
  have hheap : (lirsSetEvictCallback fresh true).heap = [] := (lirsCreate_heap hfresh).1
  rw [hheap] at hp
  exact absurd hp List.not_mem_nil

theorem get (h : BinOk cache) (key : ℕ) : BinOk (lirsGet cache key).1 :=
  have hready := @LirsReady.step _ (.get key) h.ready trivial
  h.upkeep hready (h.ready.inv.get_spec h.ready.queue key).1

theorem put (h : BinOk cache) (ptr size : ℕ) {mem : Option ℕ}
    (hmem : ∀ p, mem = some p → p ∉ cache.heap) : BinOk (lirsPut cache ptr ptr size mem).1 := by
  refine ⟨@LirsReady.step _ (.put ptr ptr size mem) h.ready hmem, ?_⟩
  have hlatest := @HoldsLatest.put _ _ ptr h.keyed h.ready ptr size _ hmem
  have hsame : LirsOp.latest cache some (.put ptr ptr size mem) = some := by
    show (if _ then Function.update some ptr (some ptr) else some) = some
    rw [Function.update_eq_self, ite_self]
  rw [hsame] at hlatest
  exact hlatest

theorem keyed_remove (h : BinOk cache) (key : ℕ) : HoldsLatest (lirsRemove cache key).1
    (if (lirsRemove cache key).2 = 0 then Function.update some key none else some) :=
  h.keyed.remove h.ready

theorem remove (h : BinOk cache) (key : ℕ) : BinOk (lirsRemove cache key).1 := by
  refine ⟨@LirsReady.step _ (.remove key) h.ready trivial, fun p hp => ?_⟩
  have hlatest := h.keyed_remove key p hp
  by_cases hcode : (lirsRemove cache key).2 = 0
  · rw [if_pos hcode] at hlatest
    by_cases hk : ((lirsRemove cache key).1.block p).key = key
    · rw [hk, Function.update_self] at hlatest
      cases hlatest
    · rwa [Function.update_of_ne hk] at hlatest
  · rwa [if_neg hcode] at hlatest

theorem not_contains_remove (h : BinOk cache) (hcontains : lirsContains cache key = true) :
    (lirsRemove cache key).2 = 0 ∧ lirsContains (lirsRemove cache key).1 key = false := by
  have hkey : key ≠ 0 := by
    rintro rfl
    cases hcontains
  unfold lirsContains at hcontains
  rw [if_neg hkey] at hcontains
  cases hf : lirsFindBlock cache key with
  | none =>
    rw [hf] at hcontains
    cases hcontains
  | some p =>
    have hcode : (lirsRemove cache key).2 = 0 := by
      unfold lirsRemove
      rw [if_neg hkey, hf]
    have hgone : lirsFindBlock (lirsRemove cache key).1 key = none := by
      have hlatest := h.keyed_remove key
      rw [if_pos hcode] at hlatest
      cases hf' : lirsFindBlock (lirsRemove cache key).1 key with
      | none => rfl
      | some q =>
        obtain ⟨hq, hkq⟩ := (h.remove key).ready.inv.find_some hf'
        have hnone := hlatest q hq
        rw [hkq, Function.update_self] at hnone
        cases hnone
    refine ⟨hcode, ?_⟩
    unfold lirsContains
    rw [if_neg hkey, hgone]

theorem configure (h : BinOk cache) {rounds : ℕ}
    (hend : binConfigure rounds c (some cache) = some (some cache')) : BinOk cache' := by
  obtain ⟨resized, hresize, he⟩ := Option.map_eq_some_iff.mp hend
  obtain rfl := Option.some.inj he
  obtain ⟨hready, hup⟩ := h.ready.resize hresize
  exact h.upkeep hready hup

end BinOk

end

/-! ## the manager -/

namespace LirsManager

variable {m m' : LirsManager} {c ptr size : ℕ} {cache : LirsCache}

@[simp] theorem setBin_self (m : LirsManager) (c : ℕ) (cache : LirsCache) :
    (m.setBin c cache).bins c = some cache := Function.update_self ..

theorem setBin_other (m : LirsManager) {i : ℕ} (hi : i ≠ c) (cache : LirsCache) :
    (m.setBin c cache).bins i = m.bins i := Function.update_of_ne hi ..

/-- The bins of `m'` are those of `m`, but for that of class `c`, whose cache `f` has changed. -/
def StepsBin (m m' : LirsManager) (c : ℕ) (f : LirsCache → LirsCache) : Prop :=
  m'.bins = m.bins ∨
    ¬ isLargeClassIdx c = true ∧
      ∃ cache, m.bins c = some cache ∧ m'.bins = (m.setBin c (f cache)).bins

theorem stepsBin_get (m : LirsManager) (size : ℕ) :
    StepsBin m (lirsManagerGet m size).1 (sizeToClass size) fun cache => (lirsGet cache size).1 := by
  unfold lirsManagerGet
  dsimp only
  by_cases hl : isLargeClassIdx (sizeToClass size) = true
  · rw [if_pos hl]
    exact Or.inl rfl
  rw [if_neg hl]
  cases hbin : m.bins (sizeToClass size) with
  | none => exact Or.inl rfl
  | some cache =>
    refine Or.inr ⟨hl, cache, hbin, ?_⟩
    dsimp only
    split_ifs
    · rfl
    · rfl

theorem stepsBin_put (m : LirsManager) (ptr size : ℕ) (mem : Option ℕ) :
    StepsBin m (lirsManagerPut m ptr size mem).1 (sizeToClass size) fun cache =>
      (lirsPut cache ptr ptr (classToSize (sizeToClass size)) mem).1 := by
  unfold lirsManagerPut
  dsimp only
  by_cases hp : ptr = 0
  · rw [if_pos hp]
    exact Or.inl rfl
  rw [if_neg hp]
  by_cases hl : isLargeClassIdx (sizeToClass size) = true
  · rw [if_pos hl]
    exact Or.inl rfl
  rw [if_neg hl]
  cases hbin : m.bins (sizeToClass size) with
  | none => exact Or.inl rfl
  | some cache => exact Or.inr ⟨hl, cache, hbin, rfl⟩

theorem stepsBin_removeFrom (m : LirsManager) (ptr c : ℕ) :
    StepsBin m (lirsManagerRemoveFrom m ptr c).1 c fun cache => (lirsRemove cache ptr).1 := by
  unfold lirsManagerRemoveFrom
  by_cases hl : isLargeClassIdx c = true
  · rw [if_pos hl]
    exact Or.inl rfl
  rw [if_neg hl]
  cases hbin : m.bins c with
  | none => exact Or.inl rfl
  | some cache => exact Or.inr ⟨hl, cache, hbin, rfl⟩

theorem StepsBin.other {f : LirsCache → LirsCache} (hs : StepsBin m m' c f) {i : ℕ} (hi : i ≠ c) :
    m'.bins i = m.bins i := by
  obtain he | ⟨-, cache, -, he⟩ := hs
  · rw [he]
  · rw [he, setBin_other m hi]

theorem StepsBin.ok {f : LirsCache → LirsCache} (hs : StepsBin m m' c f) (h : m.Ok)
    (hf : ∀ cache, m.bins c = some cache → BinOk (f cache)) : m'.Ok := by
  intro i cache' hi
  obtain he | ⟨-, cache, hbin, he⟩ := hs
  · rw [he] at hi
    exact h i cache' hi
  · rw [he] at hi
    by_cases hic : i = c
    · rw [hic, setBin_self] at hi
      obtain rfl := Option.some.inj hi
      exact hf cache hbin
    · rw [setBin_other m hic] at hi
      exact h i cache' hi

theorem Ok.init {ok : ℕ → Bool × Bool} (hm : lirsManagerInit ok = some m) : m.Ok := by
  intro c cache hc
  unfold lirsManagerInit at hm
  split_ifs at hm
  obtain rfl := Option.some.inj hm
  dsimp only at hc
  split_ifs at hc
  exact BinOk.create hc

theorem Ok.configure (h : m.Ok) {rounds : ℕ} (hm : lirsManagerConfigure rounds m = some m') :
    m'.Ok := by
  intro c cache' hc
  unfold lirsManagerConfigure at hm
  split_ifs at hm
  obtain rfl := Option.some.inj hm
  dsimp only at hc
  cases hbin : m.bins c with
  | none =>
    rw [hbin] at hc
    cases hc
  | some cache =>
    rw [hbin] at hc
    cases hend : binConfigure rounds c (some cache) with
    | none =>
      rw [hend] at hc
      cases hc
    | some bin =>
      rw [hend, Option.getD_some] at hc
      exact (h c cache hbin).configure (hc ▸ hend)

theorem Ok.get (h : m.Ok) (size : ℕ) : (lirsManagerGet m size).1.Ok :=
  (stepsBin_get m size).ok h fun cache hbin => (h _ cache hbin).get size

theorem Ok.put (h : m.Ok) (ptr size : ℕ) {mem : Option ℕ}
    (hmem : ∀ p, mem = some p → ∀ c cache, m.bins c = some cache → p ∉ cache.heap) :
    (lirsManagerPut m ptr size mem).1.Ok :=
  (stepsBin_put m ptr size mem).ok h fun cache hbin =>
    (h _ cache hbin).put ptr _ fun p he => hmem p he _ cache hbin

theorem Ok.removeFrom (h : m.Ok) (ptr c : ℕ) : (lirsManagerRemoveFrom m ptr c).1.Ok :=
  (stepsBin_removeFrom m ptr c).ok h fun cache hbin => (h _ cache hbin).remove ptr

theorem Ok.step (h : m.Ok) (op : ManagerOp) (hop : op.Legal m) : (m.step op).Ok := by
  cases op with
  | init ok =>
    obtain ⟨m', hm⟩ := Option.isSome_iff_exists.mp hop
    show ((lirsManagerInit ok).getD m).Ok
    rw [hm]
    exact Ok.init hm
  | shutdown => exact fun c cache hc => nomatch hc
  | configure rounds =>
    obtain ⟨m', hm⟩ := Option.isSome_iff_exists.mp hop
    show ((lirsManagerConfigure rounds m).getD m).Ok
    rw [hm]
    exact h.configure hm
  | get size => exact h.get size
  | put ptr size mem => exact h.put ptr size hop
  | remove chunk ptr =>
    show (((lirsManagerRemove m chunk ptr).map Prod.fst).getD m).Ok
    unfold lirsManagerRemove
    by_cases hp : ptr = 0
    · rw [if_pos hp]
      exact h
    · rw [if_neg hp]
      cases hclass : lirsManagerClass (chunk (ptrToChunk ptr)) ptr with
      | none => exact h
      | some c => exact h.removeFrom ptr c

theorem ok_run {ok : ℕ → Bool × Bool} {ops : List ManagerOp} (hm : lirsManagerInit ok = some m)
    (hops : Runs.Each step ManagerOp.Legal m ops) : (Runs.after step m ops).Ok :=
  Runs.inv_after (fun _ op h hop => h.step op hop) (Ok.init hm) hops

end LirsManager

/-! ## removing a small block -/

section
variable {m : LirsManager} {chunk : Chunk} {p c ptr : ℕ} {cache : LirsCache}

/-- The offset of a small block is a multiple of eight, and the search stops at the first class. -/
theorem lirsManagerClass_block (hpl : InPlace chunk p) {n : ℕ} (h8 : 8 ∣ n)
    (hn : n < CHUNK_DEFAULT_SIZE) : lirsManagerClass chunk (p + n) = some 0 := by
  have hbelow := hpl.mapping.below
  have hoff : subW (p + n) chunk.baseAddr = n := by
    rw [hpl.baseAddr, subW_eq (Nat.le_add_right p n) (by omega), Nat.add_sub_cancel_left]
  have hrange : List.range NUM_SIZE_CLASSES =
      0 :: (List.range (NUM_SIZE_CLASSES - 1)).map (· + 1) := by decide
  have hmod := Nat.mod_eq_zero_of_dvd h8
  unfold lirsManagerClass
  dsimp only
  rw [hoff, hrange, List.find?_cons_of_pos]
  · rfl
  · rw [decide_eq_true_eq, classToSize_zero, hpl.size]
    exact Or.inr ⟨hmod, hn⟩

/-- A small block is looked for in the first bin. -/
theorem lirsManagerRemove_block {s : ArenaHeap} {xs : List (ℕ × Option ℕ)} (h : HeapOk s xs)
    {size : ℕ} (hb : (ptr, size) ∈ s.blocks) (hsmall : size ≤ 4096) :
    ptr ≠ 0 ∧
      lirsManagerRemove m s.arena.chunk ptr = some (lirsManagerRemoveFrom m ptr 0) := by
  have hplaced := h.placed _ hb
  have hne := hplaced.ne_zero h.chunks
  refine ⟨hne, ?_⟩
  cases hplaced with
  | large _ _ hlarge _ _ _ _ =>
    have hmax : 4096 ≤ SIZE_CLASS_MEDIUM_MAX := by decide
    omega
  | small p b hmem _ hend hptr =>
    have hpl := h.chunks.place _ hmem
    dsimp only at hend hptr
    have h8 : 8 ∣ SIZEOF_CHUNK + b * classToSize (sizeToClass size) :=
      Nat.dvd_add (by decide) (Dvd.dvd.mul_left (classToSize_dvd _) b)
    have hn : SIZEOF_CHUNK + b * classToSize (sizeToClass size) < CHUNK_DEFAULT_SIZE :=
      block_lt (by omega)
    rw [Nat.add_assoc] at hptr
    unfold lirsManagerRemove
    rw [if_neg hne, hptr, hpl.ptrToChunk_eq hn, lirsManagerClass_block hpl h8 hn]
    rfl

namespace LirsManager

theorem contains_of_bin {i : ℕ} {m' : LirsManager} (h : m'.bins i = m.bins i) :
    m'.contains i ptr = m.contains i ptr := by
  unfold contains
  rw [h]

theorem removeFrom_self (h : m.Ok) (hc : c < NUM_SIZE_CLASSES) (hcontains : m.contains c ptr = true) :
    (lirsManagerRemoveFrom m ptr c).2 = 0 ∧
      (lirsManagerRemoveFrom m ptr c).1.contains c ptr = false := by
  have hl : isLargeClassIdx c = false := decide_eq_false (Nat.not_le.mpr hc)
  unfold contains at hcontains
  cases hbin : m.bins c with
  | none =>
    rw [hbin] at hcontains
    cases hcontains
  | some cache =>
    rw [hbin] at hcontains
    obtain ⟨hcode, hgone⟩ := (h c cache hbin).not_contains_remove hcontains
    unfold lirsManagerRemoveFrom
    rw [hl, hbin]
    refine ⟨hcode, ?_⟩
    show contains (m.setBin c (lirsRemove cache ptr).1) c ptr = false
    unfold contains
    rw [setBin_self]
    exact hgone

end LirsManager

end

/-- **A small block is removed from its bin**, and from every other, exactly when it is of at most
eight bytes and no other bin contains it. -/
theorem manager_removes_iff {ops : List ArenaOp} {m : LirsManager} {ok : ℕ → Bool × Bool}
    {calls : List ManagerOp} {ptr size : ℕ}
    (hops : Runs.Each ArenaHeap.step ArenaOp.Legal ArenaHeap.init ops)
    (hm : lirsManagerInit ok = some m)
    (hcalls : Runs.Each LirsManager.step ManagerOp.Legal m calls)
    (hblock : (ptr, size) ∈ (Runs.after ArenaHeap.step ArenaHeap.init ops).blocks)
    (hsmall : size ≤ 4096)
    (hresident : (Runs.after LirsManager.step m calls).contains (sizeToClass size) ptr = true) :
    RemovesFrom (Runs.after LirsManager.step m calls)
        (Runs.after ArenaHeap.step ArenaHeap.init ops).arena.chunk ptr (sizeToClass size) ↔
      size ≤ 8 ∧ ∀ i, i ≠ 0 → i < NUM_SIZE_CLASSES →
        (Runs.after LirsManager.step m calls).contains i ptr = false := by
  have hok := LirsManager.ok_run hm hcalls
  obtain ⟨xs, hheap⟩ := ArenaHeap.ok_run hops
  generalize Runs.after LirsManager.step m calls = s at hok hresident
  obtain ⟨-, hremove⟩ := lirsManagerRemove_block (m := s) hheap hblock hsmall
  have hzero : 0 < NUM_SIZE_CLASSES := by decide
  have hclass : sizeToClass size < NUM_SIZE_CLASSES :=
    (sizeToClass_small hsmall).1.trans (by decide)
  unfold RemovesFrom
  rw [hremove, ← sizeToClass_eq_zero hsmall]
  constructor
  · rintro ⟨s', hs', hgone, -⟩
    have he : s' = (lirsManagerRemoveFrom s ptr 0).1 :=
      (congrArg Prod.fst (Option.some.inj hs')).symm
    have hother : ∀ i, i ≠ 0 → s'.contains i ptr = s.contains i ptr := by
      intro i hi
      rw [he]
      exact LirsManager.contains_of_bin ((LirsManager.stepsBin_removeFrom ..).other hi)
    refine ⟨?_, fun i hi hlt => (hother i hi).symm.trans (hgone i hlt)⟩
    -- in another bin the pointer is left
    by_contra hne
    have hleft := (hother _ hne).trans hresident
    rw [hgone _ hclass] at hleft
    cases hleft
  · rintro ⟨hc, hothers⟩
    rw [hc] at hresident
    obtain ⟨hcode, hgone⟩ := LirsManager.removeFrom_self hok hzero hresident
    refine ⟨(lirsManagerRemoveFrom s ptr 0).1, ?_, fun i hlt => ?_, fun i hi => ?_⟩
    · rw [← hcode]
    · by_cases hi : i = 0
      · rw [hi]
        exact hgone
      · rw [LirsManager.contains_of_bin ((LirsManager.stepsBin_removeFrom ..).other hi)]
        exact hothers i hi hlt
    · rw [hc] at hi
      exact (LirsManager.stepsBin_removeFrom ..).other hi

/-- The manager after every cache of `lirs_manager_init` was made. -/
def freshManager : LirsManager :=
  ⟨fun c => if isLargeClassIdx c then none else binCreate (fun _ => (true, true)) c, 0, 0⟩

theorem lirsManagerInit_given : lirsManagerInit (fun _ => (true, true)) = some freshManager := by
  unfold lirsManagerInit
  rw [if_pos]
  · rfl
  · decide +kernel

theorem freshManager_heap {c : ℕ} {cache : LirsCache} (hc : freshManager.bins c = some cache) :
    cache.heap = [] := by
  have hbin : (if isLargeClassIdx c then none else binCreate (fun _ => (true, true)) c) =
    some cache := hc
  split_ifs at hbin
  obtain ⟨fresh, hfresh, rfl⟩ := Option.map_eq_some_iff.mp hbin
  exact (lirsCreate_heap hfresh).1

theorem freshManager_put (ptr size : ℕ) (mem : Option ℕ) :
    Runs.Each LirsManager.step ManagerOp.Legal freshManager [.put ptr size mem] := by
  refine ⟨fun p _ c cache hc => ?_, trivial⟩
  rw [freshManager_heap hc]
  exact List.not_mem_nil

/-- A block of eight bytes, put into the bin of its class. -/
theorem eight_bytes_removed :
    RemovesFrom
      (Runs.after LirsManager.step freshManager [.put (CHUNK_ALIGN + SIZEOF_CHUNK) 8 (some 100)])
      (Runs.after ArenaHeap.step ArenaHeap.init [.malloc ⟨8, givenEnv⟩]).arena.chunk
      (CHUNK_ALIGN + SIZEOF_CHUNK) (sizeToClass 8) := by
  have hothers : ∀ i < NUM_SIZE_CLASSES, i ≠ 0 → (Runs.after LirsManager.step freshManager
      [.put (CHUNK_ALIGN + SIZEOF_CHUNK) 8 (some 100)]).contains i
        (CHUNK_ALIGN + SIZEOF_CHUNK) = false := by decide +kernel
  exact (manager_removes_iff (givenEnv_run (by decide)) lirsManagerInit_given
    (freshManager_put _ _ _) (by decide +kernel) (by decide) (by decide +kernel)).mpr
    ⟨le_refl 8, fun i hi hlt => hothers i hlt hi⟩

/-- A block of sixteen bytes is put into bin 1, and looked for in bin 0. -/
theorem sixteen_bytes_left :
    Runs.Each ArenaHeap.step ArenaOp.Legal ArenaHeap.init [.malloc ⟨16, givenEnv⟩] ∧
    lirsManagerInit (fun _ => (true, true)) = some freshManager ∧
    Runs.Each LirsManager.step ManagerOp.Legal freshManager
      [.put (CHUNK_ALIGN + SIZEOF_CHUNK) 16 (some 100)] ∧
    (CHUNK_ALIGN + SIZEOF_CHUNK, 16) ∈
      (Runs.after ArenaHeap.step ArenaHeap.init [.malloc ⟨16, givenEnv⟩]).blocks ∧
    (lirsManagerPut freshManager (CHUNK_ALIGN + SIZEOF_CHUNK) 16 (some 100)).2 = 0 ∧
    (Runs.after LirsManager.step freshManager
      [.put (CHUNK_ALIGN + SIZEOF_CHUNK) 16 (some 100)]).contains (sizeToClass 16)
        (CHUNK_ALIGN + SIZEOF_CHUNK) = true ∧
    ¬ RemovesFrom
      (Runs.after LirsManager.step freshManager [.put (CHUNK_ALIGN + SIZEOF_CHUNK) 16 (some 100)])
      (Runs.after ArenaHeap.step ArenaHeap.init [.malloc ⟨16, givenEnv⟩]).arena.chunk
      (CHUNK_ALIGN + SIZEOF_CHUNK) (sizeToClass 16) := by
  refine ⟨givenEnv_run (by decide), lirsManagerInit_given, freshManager_put _ _ _,
    by decide +kernel, by decide +kernel, by decide +kernel, ?_⟩
  rintro ⟨m', hm', -, -⟩
  have hcode : (lirsManagerRemove
      (Runs.after LirsManager.step freshManager [.put (CHUNK_ALIGN + SIZEOF_CHUNK) 16 (some 100)])
      (Runs.after ArenaHeap.step ArenaHeap.init [.malloc ⟨16, givenEnv⟩]).arena.chunk
      (CHUNK_ALIGN + SIZEOF_CHUNK)).map Prod.snd = some (-2) := by decide +kernel
  rw [hm'] at hcode
  cases hcode

end Nomalloc
