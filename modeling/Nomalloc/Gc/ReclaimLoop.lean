import Nomalloc.Gc.Region
import Nomalloc.Lib.Bytes

/-!
# The loop of `gc_reclaim_regions`, over addresses

The loop names the node `reclaim_list`, and the nodes on `old_regions` are the `list` nodes.  So
`list_entry` goes back from a `list` node by the offset of `reclaim_list`, and arrives sixteen bytes
before the region.

Here memory is bytes, a list node an address, and a member of `struct gc_region` an offset; `mgr` is
the address of `g_gc_region_manager`.  The spinlocks and the statistics are left out.

* `GcMember.offset`          `offsetof`, from the members in their order;
* `gcReclaimRegionsAt`       the loop, with the pointers it passes and the memory at each call;
* `ListsAt mem mgr lists`    the six lists, in memory;
* `PointersOk`               every pointer is a region on `old_regions`, and the loop ends;
* `reclaim_pointers_iff`     so it is exactly when the body of the loop is never run.
-/

namespace Nomalloc

open Bytes

/-! ## `struct gc_region` -/

/-- The members of `struct gc_region`. -/
inductive GcMember where
  | id
  | arenaId
  | type
  | prevType
  | baseAddr
  | size
  | allocatedBytes
  | liveBytes
  | garbageBytes
  | markingBitmap
  | liveBitmap
  | bitmapSize
  | age
  | gcEpoch
  | needsReclaim
  | isCompactingTarget
  | isRelocationTarget
  | relocationDestId
  | lock
  | list
  | reclaimList
  | compactList
deriving DecidableEq, Repr

namespace GcMember

/-- In the order of the declaration. -/
def all : List GcMember :=
  [id, arenaId, type, prevType, baseAddr, size, allocatedBytes, liveBytes, garbageBytes,
    markingBitmap, liveBitmap, bitmapSize, age, gcEpoch, needsReclaim, isCompactingTarget,
    isRelocationTarget, relocationDestId, lock, list, reclaimList, compactList]

/-- `sizeof` a member: `int`, an enumeration and `uint32_t` have four bytes, `bool` one, a
`list_head` is two pointers.  The `spinlock_t` is a `uint_fast32_t`; where that has four bytes, the
members behind it stay where they are. -/
def bytes : GcMember → ℕ
  | id | arenaId | type | prevType | age | gcEpoch => 4
  | needsReclaim | isCompactingTarget | isRelocationTarget => 1
  | list | reclaimList | compactList => 16
  | _ => 8

/-- `_Alignof` a member -/
def alignment (f : GcMember) : ℕ := min f.bytes 8

/-- Members one after the other, from `o`, each at a multiple of its alignment. -/
def place (o : ℕ) : List GcMember → List (GcMember × ℕ)
  | [] => []
  | f :: fs =>
    let start := (o + f.alignment - 1) / f.alignment * f.alignment
    (f, start) :: place (start + f.bytes) fs

/-- `offsetof(struct gc_region, f)` -/
def offset (f : GcMember) : ℕ := ((place 0 all).lookup f).getD 0

example : list.offset = 112 ∧ reclaimList.offset = 128 := by decide

end GcMember

/-- `sizeof(struct gc_region)` -/
def GC_REGION_BYTES : ℕ := GcMember.compactList.offset + GcMember.compactList.bytes

/-- A member of the region at `p`. -/
def getMember (mem : Mem) (p : ℕ) (f : GcMember) : ℕ := load mem (addW p f.offset) f.bytes

def setMember (mem : Mem) (p : ℕ) (f : GcMember) (v : ℕ) : Mem :=
  store mem (addW p f.offset) f.bytes v

/-! ## `struct gc_region_manager` -/

/-- `offsetof(struct gc_region_manager, free_regions)`: behind the array and two `int`s. -/
def REGION_LISTS : ℕ := 8 * GC_MAX_REGIONS + 8

/-- `offsetof(struct gc_region_manager, free_region_count)` -/
def REGION_COUNTS : ℕ := REGION_LISTS + 6 * 16

/-- `offsetof(struct gc_region_manager, used_size)` -/
def USED_SIZE : ℕ := REGION_COUNTS + 6 * 8 + 8

/-- The value of a type; the lists and the counters have this order. -/
def GcRegionType.code : GcRegionType → ℕ
  | .empty => 0
  | .young => 1
  | .survivor => 2
  | .old => 3
  | .humongous => 4
  | .pinned => 5

/-- `&g_gc_region_manager.<type>_regions` -/
def listHeadAt (mgr : ℕ) (t : GcRegionType) : ℕ := mgr + REGION_LISTS + 16 * t.code

/-- `&g_gc_region_manager.<type>_region_count`, by the value of the type -/
def countAt (mgr code : ℕ) : ℕ := mgr + REGION_COUNTS + 8 * code

/-! ## `utils/list.h` -/

/-- `node->prev` -/
def prevAt (mem : Mem) (node : ℕ) : ℕ := load mem node 8

/-- `node->next` -/
def nextAt (mem : Mem) (node : ℕ) : ℕ := load mem (addW node 8) 8

def setPrev (mem : Mem) (node v : ℕ) : Mem := store mem node 8 v

def setNext (mem : Mem) (node v : ℕ) : Mem := store mem (addW node 8) 8 v

/-- `INIT_LIST_HEAD` -/
def initListHeadAt (mem : Mem) (node : ℕ) : Mem := setNext (setPrev mem node node) node node

/-- `list_add_tail` -/
def listAddTailAt (mem : Mem) (node head : ℕ) : Mem :=
  let mem := setNext mem (prevAt mem head) node
  let mem := setPrev mem node (prevAt mem head)
  let mem := setNext mem node head
  setPrev mem head node

/-- `list_del` -/
def listDelAt (mem : Mem) (entry : ℕ) : Mem :=
  let mem := setNext mem (prevAt mem entry) (nextAt mem entry)
  let mem := setPrev mem (nextAt mem entry) (prevAt mem entry)
  let mem := setPrev mem entry 0
  setNext mem entry 0

/-- `list_entry(ptr, struct gc_region, member)` -/
def listEntry (ptr : ℕ) (f : GcMember) : ℕ := subW ptr f.offset

/-- `list_first_entry` -/
def listFirstEntry (mem : Mem) (head : ℕ) (f : GcMember) : ℕ := listEntry (nextAt mem head) f

/-- `list_next_entry` -/
def listNextEntry (mem : Mem) (entry : ℕ) (f : GcMember) : ℕ :=
  listEntry (nextAt mem (addW entry f.offset)) f

/-! ## `gc_region.c` -/

/-- `gc_region_needs_reclaim` -/
def gcRegionNeedsReclaimAt (mem : Mem) (p : ℕ) : Bool :=
  gcRegionNeedsReclaim { GcRegion.zero with
    allocatedBytes := getMember mem p .allocatedBytes
    liveBytes := getMember mem p .liveBytes }

/-- `gc_region_is_empty` -/
def gcRegionIsEmptyAt (mem : Mem) (p : ℕ) : Bool := getMember mem p .allocatedBytes = 0

/-- `gc_region_reclaim` -/
def gcRegionReclaimAt (mem : Mem) (p : ℕ) : Mem :=
  if p = 0 then mem
  else
    let mem := setMember mem p .garbageBytes
      (subW (getMember mem p .allocatedBytes) (getMember mem p .liveBytes))
    let mem := if round53 (getMember mem p .allocatedBytes) < 2 * round53 (getMember mem p .garbageBytes)
      then setMember mem p .needsReclaim 1 else mem
    let mem := fill mem (addW (getMember mem p .baseAddr) (getMember mem p .liveBytes))
      (subW (getMember mem p .allocatedBytes) (getMember mem p .liveBytes)) 0
    setMember mem p .allocatedBytes (getMember mem p .liveBytes)

/-- `gc_region_free` -/
def gcRegionFreeAt (mem : Mem) (mgr p : ℕ) : Mem :=
  if p = 0 then mem
  else
    let mem := listDelAt mem (addW p GcMember.list.offset)
    let type := getMember mem p .type
    let mem := if 1 ≤ type ∧ type ≤ 5 then
        store mem (countAt mgr type) 8 (subW (load mem (countAt mgr type) 8) 1)
      else mem
    let mem := store mem (mgr + USED_SIZE) 8
      (subW (load mem (mgr + USED_SIZE) 8) (getMember mem p .size))
    let mem := setMember mem p .type 0
    let mem := setMember mem p .prevType 0
    let mem := setMember mem p .age 0
    let mem := setMember mem p .allocatedBytes 0
    let mem := setMember mem p .liveBytes 0
    let mem := setMember mem p .garbageBytes 0
    let mem := fill mem (getMember mem p .baseAddr) (getMember mem p .size) 0
    let mem := listAddTailAt mem (addW p GcMember.list.offset) (listHeadAt mgr .empty)
    store mem (countAt mgr 0) 8 (addW (load mem (countAt mgr 0) 8) 1)

/-! ## the loop -/

/-- The variables of the loop, and the pointers it has passed to `gc_region_needs_reclaim`,
`gc_region_reclaim` and `gc_region_free`, each with the memory at the call. -/
structure ReclaimLoop where
  mem : Mem
  reclaimed : ℕ
  bytesFreed : ℕ
  passed : List (Mem × ℕ)

inductive LoopEnd where
  | atHead
  | atMax
deriving DecidableEq

/-- The body, after the test of `reclaimed`. -/
def reclaimBodyAt (mgr : ℕ) (s : ReclaimLoop) (p : ℕ) : ReclaimLoop :=
  let needs := gcRegionNeedsReclaimAt s.mem p
  let s := { s with passed := s.passed ++ [(s.mem, p)] }
  if needs && getMember s.mem p .isCompactingTarget = 0 then
    let s := { s with
      mem := gcRegionReclaimAt s.mem p
      passed := s.passed ++ [(s.mem, p)] }
    let s := { s with
      bytesFreed := addW s.bytesFreed (getMember s.mem p .garbageBytes)
      reclaimed := s.reclaimed + 1 }
    if gcRegionIsEmptyAt s.mem p then
      { s with mem := gcRegionFreeAt s.mem mgr p, passed := s.passed ++ [(s.mem, p)] }
    else s
  else s

/-- The loop for at most `rounds` rounds, from `region` and `next`. -/
def reclaimLoopAt (mgr : ℕ) (maxRegions : ℤ) :
    ℕ → ℕ → ℕ → ReclaimLoop → ReclaimLoop × Option LoopEnd
  | 0, _, _, s => (s, none)
  | rounds + 1, region, next, s =>
    if addW region GcMember.reclaimList.offset = listHeadAt mgr .old then (s, some .atHead)
    else if maxRegions ≤ s.reclaimed then (s, some .atMax)
    else
      let s := reclaimBodyAt mgr s region
      reclaimLoopAt mgr maxRegions rounds next (listNextEntry s.mem next .reclaimList) s

/-- `gc_reclaim_regions` -/
def gcReclaimRegionsAt (mem : Mem) (mgr : ℕ) (maxRegions : ℤ) (rounds : ℕ) :
    ReclaimLoop × Option LoopEnd :=
  let region := listFirstEntry mem (listHeadAt mgr .old) .reclaimList
  reclaimLoopAt mgr maxRegions rounds region (listNextEntry mem region .reclaimList)
    ⟨mem, 0, 0, []⟩

/-! ## the lists in memory -/

/-- A pointer that may be NULL. -/
def pointer (v : ℕ) : Option ℕ := if v = 0 then none else some v

/-- The nodes of the memory. -/
def linksAt (mem : Mem) : Links ℕ :=
  ⟨fun node => pointer (nextAt mem node), fun node => pointer (prevAt mem node), false⟩

/-- The regions `ps` are linked into the list of the type `t`, through their `list` nodes. -/
def OnListAt (mem : Mem) (mgr : ℕ) (t : GcRegionType) (ps : List ℕ) : Prop :=
  CircList (linksAt mem) (listHeadAt mgr t) (ps.map (· + GcMember.list.offset))

/-- The list invariant: a region is on the list its type names, the counters count, and the records
do not overlap. -/
structure ListsAt (mem : Mem) (mgr : ℕ) (lists : GcRegionType → List ℕ) : Prop where
  onLists : ∀ t, OnListAt mem mgr t (lists t)
  types : ∀ t, ∀ p ∈ lists t, getMember mem p .type = t.code
  counts : ∀ t, load mem (countAt mgr t.code) 8 = (lists t).length
  within : ∀ t, ∀ p ∈ lists t, p + GC_REGION_BYTES < wordSize
  apart : ∀ t t', ∀ p ∈ lists t, ∀ q ∈ lists t',
    p ≠ q → p + GC_REGION_BYTES ≤ q ∨ q + GC_REGION_BYTES ≤ p

/-- What is asked of the loop. -/
structure PointersOk (mem : Mem) (mgr : ℕ) (maxRegions : ℤ) : Prop where
  /-- a pointer that is passed is a region on `old_regions` at that moment -/
  onOld : ∀ rounds, ∀ call ∈ (gcReclaimRegionsAt mem mgr maxRegions rounds).1.passed,
    ∃ ps, OnListAt call.1 mgr .old ps ∧ call.2 ∈ ps
  ends : ∃ rounds s e, gcReclaimRegionsAt mem mgr maxRegions rounds = (s, some e) ∧
    (e = .atHead ∨ s.reclaimed ≤ maxRegions.toNat)

section
variable {mem : Mem} {mgr a n k : ℕ} {lists : GcRegionType → List ℕ} {t : GcRegionType}

/-! ## the pointers that are passed -/

theorem nextAt_lt (mem : Mem) (node : ℕ) : nextAt mem node < wordSize := load_lt mem _ 8

theorem eq_of_pointer (h : pointer n = some k) : n = k := by
  unfold pointer at h
  split_ifs at h
  exact Option.some.inj h

theorem linksAt_next (mem : Mem) (node : ℕ) :
    (linksAt mem).next node = pointer (nextAt mem node) := by
  unfold linksAt
  dsimp only

theorem linksAt_prev (mem : Mem) (node : ℕ) :
    (linksAt mem).prev node = pointer (prevAt mem node) := by
  unfold linksAt
  dsimp only

theorem nextAt_of_link (h : (linksAt mem).next n = some k) : nextAt mem n = k := by
  rw [linksAt_next] at h
  exact eq_of_pointer h

/-- `list_entry` and then the member again. -/
theorem addW_listEntry (ha : a < wordSize) (f : GcMember) : addW (listEntry a f) f.offset = a := by
  have hf : f.offset ≤ wordSize := by cases f <;> decide
  have hmod : addW (listEntry a f) f.offset ≡ a [MOD wordSize] :=
    (addW_modEq _ _).trans (subW_modEq a hf)
  exact (Nat.ModEq.eq_of_lt_of_lt hmod (addW_lt _ _) ha)

/-- Each round passes its region first to `gc_region_needs_reclaim`. -/
theorem reclaimBodyAt_passed (mgr : ℕ) (s : ReclaimLoop) (p : ℕ) :
    (s.mem, p) ∈ (reclaimBodyAt mgr s p).passed := by
  unfold reclaimBodyAt
  dsimp only
  split_ifs <;> simp

theorem reclaimLoopAt_one {maxRegions : ℤ} {region next : ℕ} {s : ReclaimLoop}
    (hhead : addW region GcMember.reclaimList.offset ≠ listHeadAt mgr .old)
    (hmax : (s.reclaimed : ℤ) < maxRegions) :
    reclaimLoopAt mgr maxRegions 1 region next s = (reclaimBodyAt mgr s region, none) := by
  unfold reclaimLoopAt
  rw [if_neg hhead, if_neg (not_le.mpr hmax)]
  rfl

theorem OnListAt.unique {ps qs : List ℕ} (h : OnListAt mem mgr t ps) (h' : OnListAt mem mgr t qs) :
    ps = qs :=
  List.map_injective_iff.mpr (add_left_injective _) (CircList.unique h h')

namespace ListsAt

/-- `list_entry` of a `list` node, with the offset of `reclaim_list`, is no region. -/
theorem entry_notMem (h : ListsAt mem mgr lists) {p : ℕ} (hp : p ∈ lists t) (t' : GcRegionType) :
    listEntry (p + GcMember.list.offset) .reclaimList ∉ lists t' := by
  intro hq
  have hw := h.within t p hp
  have hqw := h.within t' _ hq
  have hapart := h.apart t t' p hp _ hq
  have hsub : listEntry (p + GcMember.list.offset) .reclaimList = (p + 112 + (wordSize - 128)) %
      wordSize := rfl
  have hsize : GC_REGION_BYTES = 160 := by decide
  rw [hsub, hsize] at hapart hqw
  rw [hsize] at hw
  rw [wordSize_eq] at hapart hqw hw
  omega

/-- With a region on `old_regions` the first round starts sixteen bytes before it. -/
theorem first_round (h : ListsAt mem mgr lists) {p : ℕ} {ps : List ℕ} (hl : lists .old = p :: ps)
    {maxRegions : ℤ} (hmax : 0 < maxRegions) : gcReclaimRegionsAt mem mgr maxRegions 1 =
      (reclaimBodyAt mgr ⟨mem, 0, 0, []⟩ (listEntry (p + GcMember.list.offset) .reclaimList),
        none) := by
  have hcirc := h.onLists .old
  unfold OnListAt at hcirc
  rw [hl, List.map_cons] at hcirc
  have hhead := hcirc.head_next
  rw [List.cons_append, List.head?_cons] at hhead
  have hnext := nextAt_of_link hhead
  have hne : p + GcMember.list.offset ≠ listHeadAt mgr .old := by
    intro he
    rw [← he] at hcirc
    exact (List.nodup_cons.mp hcirc.nodup).1 List.mem_cons_self
  have hlt : p + GcMember.list.offset < wordSize := by
    rw [← hnext]
    exact nextAt_lt mem _
  unfold gcReclaimRegionsAt listFirstEntry
  rw [hnext]
  refine reclaimLoopAt_one ?_ hmax
  rw [addW_listEntry hlt]
  exact hne

/-- With none, the loop ends at the head before the first round. -/
theorem no_round (h : ListsAt mem mgr lists) (hl : lists .old = []) (maxRegions : ℤ) (rounds : ℕ) :
    gcReclaimRegionsAt mem mgr maxRegions (rounds + 1) = (⟨mem, 0, 0, []⟩, some .atHead) := by
  have hcirc := h.onLists .old
  unfold OnListAt at hcirc
  rw [hl, List.map_nil] at hcirc
  have hhead := hcirc.head_next
  rw [List.nil_append, List.head?_cons] at hhead
  have hnext := nextAt_of_link hhead
  have hlt : listHeadAt mgr .old < wordSize := by
    rw [← hnext]
    exact nextAt_lt mem _
  unfold gcReclaimRegionsAt reclaimLoopAt listFirstEntry
  dsimp only
  rw [hnext, addW_listEntry hlt, if_pos rfl]

end ListsAt

theorem gcReclaimRegionsAt_of_max_le (mem : Mem) (mgr : ℕ) {maxRegions : ℤ} (hmax : maxRegions ≤ 0)
    (rounds : ℕ) : ∃ e, gcReclaimRegionsAt mem mgr maxRegions (rounds + 1) =
      (⟨mem, 0, 0, []⟩, some e) := by
  unfold gcReclaimRegionsAt reclaimLoopAt
  dsimp only
  split_ifs with hhead hle
  · exact ⟨_, rfl⟩
  · exact ⟨_, rfl⟩
  · exact absurd (by simpa using hmax) hle

/-- If no round is run then all is well. -/
theorem pointersOk_of_no_round {maxRegions : ℤ} (h : ∀ rounds, ∃ e,
    gcReclaimRegionsAt mem mgr maxRegions (rounds + 1) = (⟨mem, 0, 0, []⟩, some e)) :
    PointersOk mem mgr maxRegions := by
  refine ⟨fun rounds call hcall => ?_, ?_⟩
  · cases rounds with
    | zero => exact absurd hcall List.not_mem_nil
    | succ rounds =>
      obtain ⟨e, he⟩ := h rounds
      rw [he] at hcall
      exact absurd hcall List.not_mem_nil
  · obtain ⟨e, he⟩ := h 0
    exact ⟨1, _, e, he, Or.inr (Nat.zero_le _)⟩

/-- A pointer sixteen bytes before a region is passed. -/
theorem not_pointersOk (h : ListsAt mem mgr lists) {p : ℕ} {ps : List ℕ} (hl : lists .old = p :: ps)
    {maxRegions : ℤ} (hmax : 0 < maxRegions) : ¬ PointersOk mem mgr maxRegions := by
  intro hok
  have hpassed := reclaimBodyAt_passed mgr ⟨mem, 0, 0, []⟩
    (listEntry (p + GcMember.list.offset) .reclaimList)
  have hold := hok.onOld 1
  rw [h.first_round hl hmax] at hold
  obtain ⟨qs, hqs, hq⟩ := hold _ hpassed
  rw [hqs.unique (h.onLists .old)] at hq
  have hp : p ∈ lists .old := by
    rw [hl]
    exact List.mem_cons_self
  exact h.entry_notMem hp .old hq

/-- The pointers are regions on `old_regions` exactly where there is no round. -/
theorem reclaim_pointers_iff (mem : Mem) (mgr : ℕ) (lists : GcRegionType → List ℕ)
    (maxRegions : ℤ) (h : ListsAt mem mgr lists) :
    PointersOk mem mgr maxRegions ↔ lists .old = [] ∨ maxRegions ≤ 0 := by
  constructor
  · intro hok
    by_contra hnot
    rw [not_or, not_le] at hnot
    obtain ⟨p, ps, hl⟩ := List.exists_cons_of_ne_nil hnot.1
    exact not_pointersOk h hl hnot.2 hok
  · rintro (hl | hmax)
    · exact pointersOk_of_no_round fun rounds => ⟨_, h.no_round hl maxRegions rounds⟩
    · exact pointersOk_of_no_round fun rounds => gcReclaimRegionsAt_of_max_le mem mgr hmax rounds

end

/-! ## a manager in memory -/

/-- The list heads after `gc_region_manager_init`. -/
def managerInitAt (mgr : ℕ) : Mem :=
  [GcRegionType.empty, .young, .survivor, .old, .humongous, .pinned].foldl
    (fun mem t => initListHeadAt mem (listHeadAt mgr t)) fun _ => 0

/-- The region `p` with its memory at `base` is the first that `gc_region_alloc` creates, for
`old_regions`. -/
def allocOldAt (mem : Mem) (mgr p base : ℕ) : Mem :=
  let mem := setMember mem p .baseAddr base
  let mem := setMember mem p .size GC_REGION_SIZE_DEFAULT
  let mem := initListHeadAt mem (addW p GcMember.list.offset)
  let mem := initListHeadAt mem (addW p GcMember.reclaimList.offset)
  let mem := setMember mem p .type GcRegionType.old.code
  let mem := listAddTailAt mem (addW p GcMember.list.offset) (listHeadAt mgr .old)
  let mem := store mem (countAt mgr GcRegionType.old.code) 8 1
  store mem (mgr + USED_SIZE) 8 GC_REGION_SIZE_DEFAULT

section
variable {mem : Mem} {mgr p : ℕ} {t : GcRegionType}

theorem onListAt_nil (hhead : listHeadAt mgr t ≠ 0)
    (hnext : nextAt mem (listHeadAt mgr t) = listHeadAt mgr t)
    (hprev : prevAt mem (listHeadAt mgr t) = listHeadAt mgr t) : OnListAt mem mgr t [] := by
  refine ⟨?_, ?_, List.nodup_singleton _⟩
  · rw [linksAt_next, hnext]
    exact if_neg hhead
  · rw [linksAt_prev, hprev]
    exact if_neg hhead

theorem onListAt_singleton (hhead : listHeadAt mgr t ≠ 0) (hp : p + GcMember.list.offset ≠ 0)
    (hne : listHeadAt mgr t ≠ p + GcMember.list.offset)
    (hnext : nextAt mem (listHeadAt mgr t) = p + GcMember.list.offset)
    (hprev : prevAt mem (listHeadAt mgr t) = p + GcMember.list.offset)
    (hnext' : nextAt mem (p + GcMember.list.offset) = listHeadAt mgr t)
    (hprev' : prevAt mem (p + GcMember.list.offset) = listHeadAt mgr t) :
    OnListAt mem mgr t [p] := by
  refine ⟨⟨?_, ?_⟩, ⟨?_, ?_⟩, List.nodup_cons.mpr ⟨?_, List.nodup_singleton _⟩⟩
  · rw [linksAt_next, hnext]
    exact if_neg hp
  · rw [linksAt_next, hnext']
    exact if_neg hhead
  · rw [linksAt_prev, hprev]
    exact if_neg hp
  · rw [linksAt_prev, hprev']
    exact if_neg hhead
  · exact fun hin => hne (List.mem_singleton.mp hin)

end

theorem managerInitAt_lists : ListsAt (managerInitAt 0x1000) 0x1000 fun _ => [] where
  onLists t := by
    refine onListAt_nil ?_ ?_ ?_
    · cases t <;> decide +kernel
    · cases t <;> decide +kernel
    · cases t <;> decide +kernel
  types _ _ hp := absurd hp List.not_mem_nil
  counts t := by cases t <;> decide +kernel
  within _ _ hp := absurd hp List.not_mem_nil
  apart _ _ _ hp := absurd hp List.not_mem_nil

/-- One region, on `old_regions`. -/
def oneOld (p : ℕ) : GcRegionType → List ℕ
  | .old => [p]
  | _ => []

theorem eq_of_mem_oneOld {p q : ℕ} {t : GcRegionType} (hq : q ∈ oneOld p t) : t = .old ∧ q = p := by
  cases t with
  | old => exact ⟨rfl, List.mem_singleton.mp hq⟩
  | _ => exact absurd hq List.not_mem_nil

theorem allocOldAt_lists : ListsAt (allocOldAt (managerInitAt 0x1000) 0x1000 0x10000 0x200000)
    0x1000 (oneOld 0x10000) where
  onLists t := by
    cases t with
    | old =>
      refine onListAt_singleton ?_ ?_ ?_ ?_ ?_ ?_ ?_ <;> decide +kernel
    | _ => refine onListAt_nil ?_ ?_ ?_ <;> decide +kernel
  types t q hq := by
    obtain ⟨rfl, rfl⟩ := eq_of_mem_oneOld hq
    decide +kernel
  counts t := by cases t <;> decide +kernel
  within t q hq := by
    obtain ⟨rfl, rfl⟩ := eq_of_mem_oneOld hq
    decide +kernel
  apart t t' q hq q' hq' hne := by
    obtain ⟨-, rfl⟩ := eq_of_mem_oneOld hq
    exact absurd (eq_of_mem_oneOld hq').2.symm hne

/-- On a fresh manager the loop is over at once. -/
theorem reclaim_pointers_fresh : PointersOk (managerInitAt 0x1000) 0x1000 10 :=
  (reclaim_pointers_iff (managerInitAt 0x1000) 0x1000 (fun _ => []) 10 managerInitAt_lists).mpr
    (Or.inl rfl)

/-- With one region on `old_regions` it passes a pointer that is none. -/
theorem reclaim_passes_no_region : ¬ ∀ (mem : Mem) (mgr : ℕ) (lists : GcRegionType → List ℕ)
    (maxRegions : ℤ), ListsAt mem mgr lists → PointersOk mem mgr maxRegions := fun hall =>
  not_pointersOk allocOldAt_lists rfl (by decide) (hall _ _ _ 10 allocOldAt_lists)

end Nomalloc
