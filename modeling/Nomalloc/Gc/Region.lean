import Nomalloc.Lib.Double
import Nomalloc.Lib.CircList
import Nomalloc.Utils.Bitmap
import Nomalloc.Utils.Math

/-!
# `gc/gc_region.c`: regions and their manager

A region is a record in libc memory, named by its address, with 2 MiB of memory of its own and two
bitmaps over it.  The manager holds the array of all regions and six circular lists, one for each
type (`free_regions` for `EMPTY`), linked through the `list` node of a region.

* `gcRegionCreate`, `gcRegionManagerInit`
* `gcRegionAlloc`, `gcRegionFree`, `gcRegionReclaim`
* `gcRegionMarkObject`, `gcRegionIsMarked`, `gcRegionIsLive`
* `gcRegionPromote`, `gcRegionAge`
* `gcRegionNeedsReclaim`, `gcRegionIsEmpty`, `gcRegionGetByAddr`

`region p` is what the record at `p` holds, `created` the records that `gc_region_create` has
returned, `zeroed` the calls made to `memory_zero`.  What malloc and the kernel answer is an argument
(`RegionEnv`).  The spinlocks are left out, and so are the lists and fields no function here reads.
-/

namespace Nomalloc

/-- `GC_REGION_SIZE_DEFAULT`, the value of `g_region_size` -/
def GC_REGION_SIZE_DEFAULT : ℕ := 2 * 1024 * 1024
def GC_MAX_REGIONS : ℕ := 1024

/-- `gc_region_type_t` -/
inductive GcRegionType where
  | empty
  | young
  | survivor
  | old
  | humongous
  | pinned
deriving DecidableEq, Repr

/-- `struct gc_region`, its list nodes apart.  The bitmaps have a bit for every eight bytes. -/
structure GcRegion where
  id : ℕ
  type : GcRegionType
  prevType : GcRegionType
  baseAddr : ℕ
  size : ℕ
  allocatedBytes : ℕ
  liveBytes : ℕ
  garbageBytes : ℕ
  markingBitmap : Bitmap
  liveBitmap : Bitmap
  bitmapSize : ℕ
  age : ℕ
  gcEpoch : ℕ
  needsReclaim : Bool
  isCompactingTarget : Bool
  isRelocationTarget : Bool
  size_eq : size = 8 * bitmapSize
  length_marking : markingBitmap.length = Nomalloc.bitmapSize bitmapSize
  length_live : liveBitmap.length = Nomalloc.bitmapSize bitmapSize

/-- The `list` nodes: the heads in the manager and the nodes in the regions. -/
inductive GcNode where
  | head (t : GcRegionType)
  | region (p : ℕ)
deriving DecidableEq, Repr

/-- `struct gc_region_manager`, with the memory it points into. -/
structure GcRegionManager where
  regions : ℕ → Option ℕ
  numRegions : ℕ
  maxRegions : ℕ
  links : Links GcNode
  regionCount : GcRegionType → ℕ
  totalSize : ℕ
  usedSize : ℕ
  region : ℕ → GcRegion
  created : List ℕ
  zeroed : List (ℕ × ℕ)

/-- What `gc_region_create` is answered: the record, the memory, and whether the two bitmaps could
be allocated. -/
structure RegionEnv where
  addr : Option ℕ
  base : Option ℕ
  markingOk : Bool
  liveOk : Bool

/-- The bytes of a record that holds nothing. -/
def GcRegion.zero : GcRegion where
  id := 0
  type := .empty
  prevType := .empty
  baseAddr := 0
  size := 0
  allocatedBytes := 0
  liveBytes := 0
  garbageBytes := 0
  markingBitmap := []
  liveBitmap := []
  bitmapSize := 0
  age := 0
  gcEpoch := 0
  needsReclaim := false
  isCompactingTarget := false
  isRelocationTarget := false
  size_eq := rfl
  length_marking := rfl
  length_live := rfl

theorem eight_mul_div_alignUp (size : ℕ) :
    alignUp size GC_REGION_SIZE_DEFAULT = 8 * (alignUp size GC_REGION_SIZE_DEFAULT / 8) := by
  have h : GC_REGION_SIZE_DEFAULT ∣ alignUp size GC_REGION_SIZE_DEFAULT :=
    dvd_alignUp_of_dvd (by decide) (by decide)
  exact (Nat.mul_div_cancel' (dvd_trans (by decide) h)).symm

/-- `gc_region_create` -/
def gcRegionCreate (size : ℕ) (env : RegionEnv) : Option (ℕ × GcRegion) :=
  match env.addr, env.base with
  | some addr, some base =>
    if !env.markingOk || !env.liveOk then none
    else
      let size := alignUp size GC_REGION_SIZE_DEFAULT
      some (addr,
        { GcRegion.zero with
          baseAddr := base
          size := size
          bitmapSize := size / 8
          markingBitmap := bitmapInit (size / 8) false
          liveBitmap := bitmapInit (size / 8) false
          size_eq := eight_mul_div_alignUp _
          length_marking := length_bitmapInit _ _
          length_live := length_bitmapInit _ _ })
  | _, _ => none

/-- `gc_region_manager_init` -/
def gcRegionManagerInit : GcRegionManager where
  regions := fun _ => none
  numRegions := 0
  maxRegions := GC_MAX_REGIONS
  links := [GcRegionType.empty, .young, .survivor, .old, .humongous, .pinned].foldl
    (fun links t => listInit links (.head t)) ⟨fun _ => none, fun _ => none, false⟩
  regionCount := fun _ => 0
  totalSize := 0
  usedSize := 0
  region := fun _ => GcRegion.zero
  created := []
  zeroed := []

namespace GcRegionManager

/-- A store to the region at `p`. -/
def setRegion (m : GcRegionManager) (p : ℕ) (r : GcRegion) : GcRegionManager :=
  { m with region := Function.update m.region p r }

/-- `list_del(&region->list); <type>_region_count--;` -/
def unlist (m : GcRegionManager) (p : ℕ) (type : GcRegionType) : GcRegionManager :=
  { m with
    links := listDel m.links (.region p)
    regionCount := Function.update m.regionCount type (subW (m.regionCount type) 1) }

/-- `list_add_tail(&region->list, &<type>_regions); <type>_region_count++;` -/
def enlist (m : GcRegionManager) (p : ℕ) (type : GcRegionType) : GcRegionManager :=
  { m with
    links := listAddTail m.links (.region p) (.head type)
    regionCount := Function.update m.regionCount type (addW (m.regionCount type) 1) }

/-- A pointer is followed that leads to no region. -/
def lost (m : GcRegionManager) : GcRegionManager :=
  { m with links := { m.links with fault := true } }

end GcRegionManager

/-- The second half of `gc_region_alloc`: the region is set up and put on the list of its type. -/
def gcRegionSetup (m : GcRegionManager) (type : GcRegionType) (p : ℕ) : GcRegionManager :=
  let m := m.setRegion p { m.region p with
    type := type
    prevType := .empty
    age := 0
    gcEpoch := 0
    allocatedBytes := 0
    liveBytes := 0
    garbageBytes := 0
    needsReclaim := false
    isCompactingTarget := false
    isRelocationTarget := false }
  let m := m.enlist p type
  -- the `default:` branch, for `EMPTY`, leaves `used_size` alone
  if type = .empty then m else { m with usedSize := addW m.usedSize (m.region p).size }

/-- `gc_region_alloc` -/
def gcRegionAlloc (m : GcRegionManager) (type : GcRegionType) (env : RegionEnv) :
    GcRegionManager × Option ℕ :=
  if !listEmpty m.links (.head .empty) then
    match m.links.next (.head .empty) with
    | some (.region p) => (gcRegionSetup (m.unlist p .empty) type p, some p)
    | _ => (m.lost, none)
  else if m.numRegions < m.maxRegions then
    match gcRegionCreate GC_REGION_SIZE_DEFAULT env with
    | none => (m, none)
    | some (p, r) =>
      let m := { m with
        region := Function.update m.region p { r with id := m.numRegions }
        links := listInit m.links (.region p)
        created := m.created ++ [p]
        regions := Function.update m.regions m.numRegions (some p)
        numRegions := m.numRegions + 1
        totalSize := addW m.totalSize r.size }
      (gcRegionSetup m type p, some p)
  else (m, none)

/-- `gc_region_free` -/
def gcRegionFree (m : GcRegionManager) (p : ℕ) : GcRegionManager :=
  if p = 0 then m
  else
    let r := m.region p
    -- the switch on the type has no branch for `EMPTY`
    let m := if r.type = .empty then { m with links := listDel m.links (.region p) }
      else m.unlist p r.type
    let m := { m with usedSize := subW m.usedSize r.size }
    let m := m.setRegion p { r with
      type := .empty
      prevType := .empty
      age := 0
      allocatedBytes := 0
      liveBytes := 0
      garbageBytes := 0 }
    let m := { m with zeroed := m.zeroed ++ [(r.baseAddr, r.size)] }
    m.enlist p .empty

/-- `gc_region_reclaim` -/
def gcRegionReclaim (m : GcRegionManager) (p : ℕ) : GcRegionManager :=
  if p = 0 then m
  else
    let r := m.region p
    let garbage := subW r.allocatedBytes r.liveBytes
    { m with
      region := Function.update m.region p { r with
        garbageBytes := garbage
        -- `garbage_bytes > allocated_bytes * 0.5`, in `double`
        needsReclaim := r.needsReclaim || decide (round53 r.allocatedBytes < 2 * round53 garbage)
        allocatedBytes := r.liveBytes }
      zeroed := m.zeroed ++
        [(addW r.baseAddr r.liveBytes, subW r.allocatedBytes r.liveBytes)] }

/-- `gc_region_needs_reclaim`.  The quotient of two doubles is below `0.5` when it is nearer to the
double before it, `0.5 - 2^-54`, than to `0.5`. -/
def gcRegionNeedsReclaim (r : GcRegion) : Bool :=
  if r.allocatedBytes = 0 then true
  else decide (round53 r.liveBytes * 2 ^ 55 < round53 r.allocatedBytes * (2 ^ 54 - 1))

/-- `gc_region_is_empty` -/
def gcRegionIsEmpty (r : GcRegion) : Bool := r.allocatedBytes = 0

/-- The bit of the bitmaps that stands for `ptr`. -/
def GcRegion.bitIdx (r : GcRegion) (ptr : ℕ) : ℕ := subW ptr r.baseAddr / 8

/-- `gc_region_mark_object` -/
def gcRegionMarkObject (m : GcRegionManager) (p ptr : ℕ) : GcRegionManager :=
  if p = 0 ∨ ptr = 0 then m
  else
    let r := m.region p
    m.setRegion p { r with
      markingBitmap := bitmapSet r.markingBitmap (r.bitIdx ptr)
      length_marking := (length_bitmapSet _ _).trans r.length_marking }

/-- `gc_region_is_marked` -/
def gcRegionIsMarked (m : GcRegionManager) (p ptr : ℕ) : Bool :=
  if p = 0 ∨ ptr = 0 then false
  else bitmapGet (m.region p).markingBitmap ((m.region p).bitIdx ptr)

/-- `gc_region_is_live` -/
def gcRegionIsLive (m : GcRegionManager) (p ptr : ℕ) : Bool :=
  if p = 0 ∨ ptr = 0 then false
  else bitmapGet (m.region p).liveBitmap ((m.region p).bitIdx ptr)

/-- `gc_region_promote` -/
def gcRegionPromote (m : GcRegionManager) (p : ℕ) : GcRegionManager :=
  if p = 0 then m
  else
    let r := m.region p
    match r.type with
    | .young => ((m.unlist p .young).setRegion p { r with type := .survivor }).enlist p .survivor
    | .survivor => ((m.unlist p .survivor).setRegion p { r with type := .old }).enlist p .old
    -- any other region is taken off its list, and stays off
    | _ => { m with links := listDel m.links (.region p) }

/-- `gc_region_age` -/
def gcRegionAge (m : GcRegionManager) (p : ℕ) : GcRegionManager :=
  if p = 0 then m
  else
    let r := m.region p
    let age := (r.age + 1) % 2 ^ 32
    let m := m.setRegion p { r with age := age }
    if r.type = .young ∧ 1 < age then gcRegionPromote m p
    else if r.type = .survivor ∧ 15 < age then gcRegionPromote m p
    else m

/-- The test of `gc_region_get_by_addr` -/
def GcRegion.contains (r : GcRegion) (addr : ℕ) : Bool :=
  decide (r.baseAddr ≤ addr ∧ addr < addW r.baseAddr r.size)

/-- `gc_region_get_by_addr` -/
def gcRegionGetByAddr (m : GcRegionManager) (addr : ℕ) : Option ℕ :=
  (List.range m.numRegions).findSome? fun i =>
    (m.regions i).filter fun p => (m.region p).contains addr

theorem getByAddr_contains {m : GcRegionManager} {a p : ℕ} (h : gcRegionGetByAddr m a = some p) :
    (m.region p).contains a = true := by
  obtain ⟨i, -, hi⟩ := List.exists_of_findSome?_eq_some h
  exact (Option.filter_eq_some_iff.mp hi).2

theorem getByAddr_registered {m : GcRegionManager} {a p : ℕ} (h : gcRegionGetByAddr m a = some p) :
    ∃ i < m.numRegions, m.regions i = some p := by
  obtain ⟨i, hi, hf⟩ := List.exists_of_findSome?_eq_some h
  exact ⟨i, List.mem_range.mp hi, (Option.filter_eq_some_iff.mp hf).1⟩

end Nomalloc
