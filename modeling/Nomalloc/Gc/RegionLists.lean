import Nomalloc.Gc.Region
import Nomalloc.Lib.Runs

/-!
# The lists and counters of the region manager

A history of `gc_region_alloc`, `gc_region_free` and `gc_region_age` calls on a fresh manager.

`OnTypeLists m lists off` is what holds between two stores to the lists: the region `off`, if any,
is taken off its list and not yet put on another.  `OnTypeLists.unlist` and `OnTypeLists.enlist` are
the two moves; every function is made of them.  `TypeLists m lists off` adds the counters, and
`RegionInv m lists off` the array and the totals.

* `GcRegionManager.Consistent m lists`   lists, types, counters, array and byte totals agree;
* `region_lists_hold`                    they do in every state of every run.
-/

namespace Nomalloc

/-- Lists, types, counters, array and byte totals agree; `lists t` are the regions on the list of
the type `t`. -/
structure GcRegionManager.Consistent (m : GcRegionManager) (lists : GcRegionType → List ℕ) :
    Prop where
  /-- the six lists are circular lists of regions -/
  onLists : ∀ t, CircList m.links (.head t) ((lists t).map .region)
  noFault : m.links.fault = false
  /-- a created region is on the list its type names, and on no other -/
  listed : ∀ t p, p ∈ lists t ↔ p ∈ m.created ∧ (m.region p).type = t
  counts : ∀ t, m.regionCount t = (lists t).length
  createdOnce : m.created.Nodup
  nonNull : 0 ∉ m.created
  /-- `regions[0..num_regions)` are the created regions, with `id` the index -/
  ids : ∀ i < m.numRegions, ∃ p ∈ m.created, m.regions i = some p ∧ (m.region p).id = i
  registered : ∀ p ∈ m.created, ∃ i < m.numRegions, m.regions i = some p
  numLe : m.numRegions ≤ m.maxRegions
  total : m.totalSize = (m.created.map fun p => (m.region p).size).sum
  used : m.usedSize =
    ((m.created.filter fun p => (m.region p).type ≠ .empty).map fun p => (m.region p).size).sum

/-- The regions are on the lists that their types name, but for the region `off`, if any, which is
on none. -/
structure OnTypeLists (m : GcRegionManager) (lists : GcRegionType → List ℕ) (off : Option ℕ) :
    Prop where
  circ : CircLists m.links GcNode.head fun t => (lists t).map GcNode.region
  mem : ∀ t p, p ∈ lists t ↔ p ∈ m.created ∧ (m.region p).type = t ∧ off ≠ some p

/-- The counters count besides. -/
structure TypeLists (m : GcRegionManager) (lists : GcRegionType → List ℕ) (off : Option ℕ) : Prop
    extends OnTypeLists m lists off where
  count : ∀ t, m.regionCount t = (lists t).length
  /-- the records have different addresses, and none is at NULL -/
  few : m.created.length < wordSize
  nonNull : 0 ∉ m.created

/-- The invariant, with the region `off` on no list. -/
structure RegionInv (m : GcRegionManager) (lists : GcRegionType → List ℕ) (off : Option ℕ) :
    Prop where
  circ : CircLists m.links GcNode.head fun t => (lists t).map GcNode.region
  mem : ∀ t p, p ∈ lists t ↔ p ∈ m.created ∧ (m.region p).type = t ∧ off ≠ some p
  count : ∀ t, m.regionCount t = (lists t).length
  nodup : m.created.Nodup
  registry : ∀ i, m.regions i = m.created[i]?
  num : m.numRegions = m.created.length
  numLe : m.numRegions ≤ m.maxRegions
  max : m.maxRegions = GC_MAX_REGIONS
  record : ∀ i p, m.created[i]? = some p →
    p ≠ 0 ∧ (m.region p).id = i ∧ (m.region p).size = GC_REGION_SIZE_DEFAULT
  total : m.totalSize = GC_REGION_SIZE_DEFAULT * m.created.length

/-- The stores of `gc_region_alloc` for a region that was just created. -/
def GcRegionManager.addCreated (m : GcRegionManager) (p : ℕ) (r : GcRegion) : GcRegionManager :=
  { m with
    region := Function.update m.region p { r with id := m.numRegions }
    links := listInit m.links (.region p)
    created := m.created ++ [p]
    regions := Function.update m.regions m.numRegions (some p)
    numRegions := m.numRegions + 1
    totalSize := addW m.totalSize r.size }

/-- The byte count of the regions in use. -/
def UsedBytes (m : GcRegionManager) (lists : GcRegionType → List ℕ) : Prop :=
  m.usedSize + GC_REGION_SIZE_DEFAULT * (lists .empty).length =
    GC_REGION_SIZE_DEFAULT * m.created.length

/-- The lists, with the bytes in use. -/
def ListsOk (m : GcRegionManager) (lists : GcRegionType → List ℕ) : Prop :=
  RegionInv m lists none ∧ UsedBytes m lists

/-- `gc_region_alloc` uses a free region again; the bitmaps stay as they are. -/
structure Recycled (m m' : GcRegionManager) (p : ℕ) (r : GcRegion) : Prop where
  free : p ∈ m.created ∧ (m.region p).type = .empty
  created : m'.created = m.created
  place : r.baseAddr = (m.region p).baseAddr ∧ r.size = (m.region p).size
  bitmaps : r.markingBitmap = (m.region p).markingBitmap ∧ r.liveBitmap = (m.region p).liveBitmap

/-- `gc_region_alloc` creates a region. -/
structure NewRegion (m m' : GcRegionManager) (env : RegionEnv) (p : ℕ) (r : GcRegion) : Prop where
  addr : env.addr = some p
  created : m'.created = m.created ++ [p]
  place : env.base = some r.baseAddr ∧ r.size = GC_REGION_SIZE_DEFAULT
  bitmaps : ∀ i, bitmapGet r.markingBitmap i = false ∧ bitmapGet r.liveBitmap i = false

section
variable {m m' : GcRegionManager} {lists : GcRegionType → List ℕ} {off : Option ℕ} {p : ℕ}
  {t : GcRegionType}

theorem region_injective : Function.Injective GcNode.region := fun _ _ h => GcNode.region.inj h

theorem mem_map_region {l : List ℕ} : GcNode.region p ∈ l.map GcNode.region ↔ p ∈ l :=
  List.mem_map_of_injective region_injective

/-- Changing one list before or after its regions are seen as nodes. -/
theorem map_update (lists : GcRegionType → List ℕ) (t : GcRegionType) (l : List ℕ) :
    (fun t' => (Function.update lists t l t').map GcNode.region) =
      Function.update (fun t' => (lists t').map GcNode.region) t (l.map GcNode.region) := by
  funext t'
  by_cases h : t' = t
  · subst h
    rw [Function.update_self, Function.update_self]
  · rw [Function.update_of_ne h, Function.update_of_ne h]

/-- `gc_region_create` returns an empty region of the region size. -/
theorem gcRegionCreate_record {env : RegionEnv} {r : GcRegion}
    (hc : gcRegionCreate GC_REGION_SIZE_DEFAULT env = some (p, r)) :
    (env.addr = some p ∧ env.base = some r.baseAddr) ∧ r.size = GC_REGION_SIZE_DEFAULT ∧
      r.allocatedBytes = 0 ∧ r.liveBytes = 0 ∧
      r.markingBitmap = bitmapInit r.bitmapSize false ∧
      r.liveBitmap = bitmapInit r.bitmapSize false := by
  unfold gcRegionCreate at hc
  split at hc
  case h_1 addr base ha hb =>
    split_ifs at hc
    cases hc
    refine ⟨⟨ha, hb⟩, ?_, rfl, rfl, rfl, rfl⟩
    show alignUp GC_REGION_SIZE_DEFAULT GC_REGION_SIZE_DEFAULT = GC_REGION_SIZE_DEFAULT
    decide
  case h_2 => exact absurd hc (by simp)

/-- What the second half of `gc_region_alloc` stores in the record, and what it leaves there. -/
theorem gcRegionSetup_record (m : GcRegionManager) (t : GcRegionType) (p : ℕ) : ∃ r : GcRegion,
    (gcRegionSetup m t p).region = Function.update m.region p r ∧
      (gcRegionSetup m t p).created = m.created ∧ r.type = t ∧ r.age = 0 ∧
      (r.baseAddr = (m.region p).baseAddr ∧ r.size = (m.region p).size) ∧
      (r.allocatedBytes = 0 ∧ r.liveBytes = 0) ∧
      r.markingBitmap = (m.region p).markingBitmap ∧
      r.liveBitmap = (m.region p).liveBitmap := by
  unfold gcRegionSetup
  dsimp only
  split_ifs <;> exact ⟨_, rfl, rfl, rfl, rfl, ⟨rfl, rfl⟩, ⟨rfl, rfl⟩, rfl, rfl⟩

theorem gcRegionSetup_links (m : GcRegionManager) (t : GcRegionType) (p : ℕ) :
    (gcRegionSetup m t p).links = listAddTail m.links (.region p) (.head t) := by
  unfold gcRegionSetup
  dsimp only
  split_ifs <;> rfl

/-- What `gc_region_free` stores in the record, and what it leaves there. -/
theorem gcRegionFree_record (hp : p ≠ 0) : ∃ r : GcRegion,
    (gcRegionFree m p).region = Function.update m.region p r ∧
      (gcRegionFree m p).created = m.created ∧
      (gcRegionFree m p).links =
        listAddTail (listDel m.links (.region p)) (.region p) (.head .empty) ∧
      (gcRegionFree m p).zeroed = m.zeroed ++ [((m.region p).baseAddr, (m.region p).size)] ∧
      r.type = .empty ∧ (r.baseAddr = (m.region p).baseAddr ∧ r.size = (m.region p).size) ∧
      (r.allocatedBytes = 0 ∧ r.liveBytes = 0) ∧
      r.markingBitmap = (m.region p).markingBitmap ∧
      r.liveBitmap = (m.region p).liveBitmap := by
  refine ⟨{ m.region p with
    type := .empty
    prevType := .empty
    age := 0
    allocatedBytes := 0
    liveBytes := 0
    garbageBytes := 0 }, ?_⟩
  unfold gcRegionFree
  rw [if_neg hp]
  dsimp only
  split_ifs <;> exact ⟨rfl, rfl, rfl, rfl, rfl, ⟨rfl, rfl⟩, ⟨rfl, rfl⟩, rfl, rfl⟩

/-! ## the two moves -/

namespace OnTypeLists

theorem list_nodup (h : OnTypeLists m lists off) (t : GcRegionType) : (lists t).Nodup :=
  List.Nodup.of_map _ (List.nodup_cons.mp (h.circ.circ t).nodup).2

theorem length_le (h : OnTypeLists m lists off) (t : GcRegionType) :
    (lists t).length ≤ m.created.length :=
  ((h.list_nodup t).subperm fun p hp => ((h.mem t p).mp hp).1).length_le

theorem length_lt (h : OnTypeLists m lists off) (hp : p ∈ m.created) (hnot : p ∉ lists t) :
    (lists t).length < m.created.length := by
  have hnd : (p :: lists t).Nodup := List.nodup_cons.mpr ⟨hnot, h.list_nodup t⟩
  refine (hnd.subperm fun q hq => ?_).length_le
  rcases List.mem_cons.mp hq with rfl | hq
  · exact hp
  · exact ((h.mem _ q).mp hq).1

theorem notMem (h : OnTypeLists m lists off) (hp : p ∉ m.created ∨ off = some p)
    (t : GcRegionType) : GcNode.region p ∉ GcNode.head t :: (lists t).map GcNode.region := by
  intro hin
  rcases List.mem_cons.mp hin with hin | hin
  · exact absurd hin GcNode.noConfusion
  · have hl := (h.mem t p).mp (mem_map_region.mp hin)
    rcases hp with hp | hp
    · exact hp hl.1
    · exact hl.2.2 hp

theorem unlist (h : OnTypeLists m lists none) (hp : p ∈ m.created) (hpt : (m.region p).type = t)
    (hlinks : m'.links = listDel m.links (.region p)) (hcreated : m'.created = m.created)
    (hregion : m'.region = m.region) :
    OnTypeLists m' (Function.update lists t ((lists t).erase p)) (some p) := by
  subst hpt
  have hin : p ∈ lists (m.region p).type := (h.mem _ p).mpr ⟨hp, rfl, by simp⟩
  have hcirc := h.circ.del (mem_map_region.mpr hin)
  rw [← List.map_erase region_injective, ← map_update, ← hlinks] at hcirc
  refine ⟨hcirc, fun t q => ?_⟩
  rw [hcreated, hregion]
  by_cases ht : t = (m.region p).type
  · subst ht
    rw [Function.update_self, (h.list_nodup _).mem_erase_iff, h.mem]
    constructor
    · rintro ⟨hne, hq, htype, -⟩
      exact ⟨hq, htype, fun he => hne (Option.some.inj he).symm⟩
    · rintro ⟨hq, htype, hne⟩
      exact ⟨fun he => hne (he ▸ rfl), hq, htype, by simp⟩
  · rw [Function.update_of_ne ht, h.mem]
    constructor
    · rintro ⟨hq, htype, -⟩
      refine ⟨hq, htype, fun he => ht ?_⟩
      rw [← htype, ← Option.some.inj he]
    · rintro ⟨hq, htype, -⟩
      exact ⟨hq, htype, by simp⟩

theorem enlist (h : OnTypeLists m lists (some p)) (hp : p ∈ m.created)
    (hpt : (m.region p).type = t) (hlinks : m'.links = listAddTail m.links (.region p) (.head t))
    (hcreated : m'.created = m.created) (hregion : m'.region = m.region) :
    OnTypeLists m' (Function.update lists t (lists t ++ [p])) none := by
  subst hpt
  have hcirc := h.circ.addTail (m.region p).type (h.notMem (Or.inr rfl))
  have happ : (lists (m.region p).type).map GcNode.region ++ [GcNode.region p] =
      (lists (m.region p).type ++ [p]).map GcNode.region := by
    rw [List.map_append, List.map_singleton]
  rw [happ, ← map_update, ← hlinks] at hcirc
  refine ⟨hcirc, fun t q => ?_⟩
  rw [hcreated, hregion]
  by_cases ht : t = (m.region p).type
  · subst ht
    rw [Function.update_self, List.mem_append, List.mem_singleton, h.mem]
    constructor
    · rintro (⟨hq, htype, -⟩ | rfl)
      · exact ⟨hq, htype, by simp⟩
      · exact ⟨hp, rfl, by simp⟩
    · rintro ⟨hq, htype, -⟩
      by_cases hqp : q = p
      · exact Or.inr hqp
      · exact Or.inl ⟨hq, htype, fun he => hqp (Option.some.inj he).symm⟩
  · rw [Function.update_of_ne ht, h.mem]
    constructor
    · rintro ⟨hq, htype, -⟩
      exact ⟨hq, htype, by simp⟩
    · rintro ⟨hq, htype, -⟩
      refine ⟨hq, htype, fun he => ht ?_⟩
      rw [← htype, ← Option.some.inj he]

/-- A store to the region that is off the lists, or one that keeps the type. -/
theorem setRegion (h : OnTypeLists m lists off) {r : GcRegion}
    (htype : off = some p ∨ r.type = (m.region p).type) :
    OnTypeLists (m.setRegion p r) lists off := by
  refine ⟨h.circ, fun t q => ?_⟩
  show _ ↔ q ∈ m.created ∧ (Function.update m.region p r q).type = t ∧ _
  rw [h.mem]
  by_cases hqp : q = p
  · subst hqp
    rw [Function.update_self]
    rcases htype with hoff | htype
    · exact ⟨fun hl => absurd hoff hl.2.2, fun hl => absurd hoff hl.2.2⟩
    · rw [htype]
  · rw [Function.update_of_ne hqp]

theorem create (h : OnTypeLists m lists none) {r : GcRegion} (hp : p ∉ m.created) :
    OnTypeLists (m.addCreated p r) lists (some p) := by
  have hne : ∀ q ∈ m.created, q ≠ p := fun q hq he => hp (he ▸ hq)
  refine ⟨h.circ.init_other fun t => h.notMem (Or.inl hp) t, fun t q => ?_⟩
  show _ ↔ q ∈ m.created ++ [p] ∧ (Function.update m.region p _ q).type = t ∧ _
  rw [h.mem, List.mem_append, List.mem_singleton]
  constructor
  · rintro ⟨hq, htype, -⟩
    rw [Function.update_of_ne (hne q hq)]
    exact ⟨Or.inl hq, htype, fun he => hne q hq (Option.some.inj he).symm⟩
  · rintro ⟨hq | rfl, htype, hoff⟩
    · rw [Function.update_of_ne (hne q hq)] at htype
      exact ⟨hq, htype, by simp⟩
    · exact absurd rfl hoff

/-! ### `gc_region_alloc` -/

/-- `list_first_entry` of a list that is not empty is its first region. -/
theorem first_free (h : OnTypeLists m lists none) :
    (listEmpty m.links (.head .empty) = true ∧ lists .empty = []) ∨
      ∃ p ps, lists .empty = p :: ps ∧ m.links.next (.head .empty) = some (.region p) ∧
        listEmpty m.links (.head .empty) = false := by
  have hring := h.circ.circ .empty
  cases hl : lists .empty with
  | nil =>
    rw [hl] at hring
    exact Or.inl ⟨hring.listEmpty_iff.mpr rfl, rfl⟩
  | cons p ps =>
    rw [hl] at hring
    refine Or.inr ⟨p, ps, rfl, hring.head_next, ?_⟩
    rw [Bool.eq_false_iff, ne_eq, hring.listEmpty_iff]
    exact List.cons_ne_nil _ _

/-- `gc_region_alloc` takes the first free region, creates one, or returns NULL; it reads no more of
the lists than `m'` has. -/
theorem alloc_cases_of (h : OnTypeLists m' lists none) (hlinks : m.links = m'.links)
    (t : GcRegionType) (env : RegionEnv) :
    (∃ p ps, lists .empty = p :: ps ∧
      gcRegionAlloc m t env = (gcRegionSetup (m.unlist p .empty) t p, some p)) ∨
    (lists .empty = [] ∧ m.numRegions < m.maxRegions ∧ ∃ p r,
      gcRegionCreate GC_REGION_SIZE_DEFAULT env = some (p, r) ∧
      gcRegionAlloc m t env = (gcRegionSetup (m.addCreated p r) t p, some p)) ∨
    lists .empty = [] ∧ (m.numRegions < m.maxRegions →
      gcRegionCreate GC_REGION_SIZE_DEFAULT env = none) ∧ gcRegionAlloc m t env = (m, none) := by
  have hfirst := h.first_free
  rw [← hlinks] at hfirst
  unfold gcRegionAlloc
  rcases hfirst with ⟨hempty, hnil⟩ | ⟨p, ps, hl, hnext, hempty⟩
  · rw [hempty, Bool.not_true, if_neg Bool.false_ne_true]
    by_cases hnum : m.numRegions < m.maxRegions
    · rw [if_pos hnum]
      cases hc : gcRegionCreate GC_REGION_SIZE_DEFAULT env with
      | none => exact Or.inr (Or.inr ⟨hnil, fun _ => rfl, rfl⟩)
      | some pr => exact Or.inr (Or.inl ⟨hnil, hnum, pr.1, pr.2, rfl, rfl⟩)
    · rw [if_neg hnum]
      exact Or.inr (Or.inr ⟨hnil, fun hlt => absurd hlt hnum, rfl⟩)
  · rw [hempty, Bool.not_false, if_pos rfl, hnext]
    exact Or.inl ⟨p, ps, hl, rfl⟩

theorem alloc_cases (h : OnTypeLists m lists none) (t : GcRegionType) (env : RegionEnv) :
    (∃ p ps, lists .empty = p :: ps ∧
      gcRegionAlloc m t env = (gcRegionSetup (m.unlist p .empty) t p, some p)) ∨
    (lists .empty = [] ∧ m.numRegions < m.maxRegions ∧ ∃ p r,
      gcRegionCreate GC_REGION_SIZE_DEFAULT env = some (p, r) ∧
      gcRegionAlloc m t env = (gcRegionSetup (m.addCreated p r) t p, some p)) ∨
    lists .empty = [] ∧ (m.numRegions < m.maxRegions →
      gcRegionCreate GC_REGION_SIZE_DEFAULT env = none) ∧ gcRegionAlloc m t env = (m, none) :=
  h.alloc_cases_of rfl t env

theorem alloc_record (h : OnTypeLists m lists none) (t : GcRegionType) (env : RegionEnv) :
    gcRegionAlloc m t env = (m, none) ∨ ∃ p r, (gcRegionAlloc m t env).2 = some p ∧
      (gcRegionAlloc m t env).1.region = Function.update m.region p r ∧ r.type = t ∧ r.age = 0 ∧
      (r.allocatedBytes = 0 ∧ r.liveBytes = 0) ∧
      (Recycled m (gcRegionAlloc m t env).1 p r ∨ NewRegion m (gcRegionAlloc m t env).1 env p r) := by
  rcases h.alloc_cases t env with ⟨p, ps, hl, he⟩ | ⟨-, -, p, r, hc, he⟩ | ⟨-, -, he⟩
  · obtain ⟨hp, htype, -⟩ := (h.mem .empty p).mp (hl ▸ List.mem_cons_self)
    obtain ⟨r, hregion, hcreated, ht, hage, hplace, hbytes, hmarking, hlive⟩ :=
      gcRegionSetup_record (m.unlist p .empty) t p
    rw [he]
    exact Or.inr ⟨p, r, rfl, hregion, ht, hage, hbytes,
      Or.inl ⟨⟨hp, htype⟩, hcreated, hplace, hmarking, hlive⟩⟩
  · obtain ⟨⟨haddr, hbase⟩, hsize, -, -, hmarking, hlive⟩ := gcRegionCreate_record hc
    obtain ⟨r', hregion, hcreated, ht, hage, ⟨hbase', hsize'⟩, hbytes, hmarking', hlive'⟩ :=
      gcRegionSetup_record (m.addCreated p r) t p
    have hread : (m.addCreated p r).region p = { r with id := m.numRegions } :=
      Function.update_self ..
    rw [hread] at hbase' hsize' hmarking' hlive'
    rw [he]
    refine Or.inr ⟨p, r', rfl, hregion.trans (Function.update_idem ..), ht, hage, hbytes,
      Or.inr ⟨haddr, hcreated, ⟨?_, hsize'.trans hsize⟩, fun i => ⟨?_, ?_⟩⟩⟩
    · rw [hbase, hbase']
    · rw [hmarking'.trans hmarking]
      exact bitmapGet_init_false _ i
    · rw [hlive'.trans hlive]
      exact bitmapGet_init_false _ i
  · exact Or.inl he

theorem setup (h : OnTypeLists m lists (some p)) (hp : p ∈ m.created) (t : GcRegionType) :
    OnTypeLists (gcRegionSetup m t p) (Function.update lists t (lists t ++ [p])) none := by
  obtain ⟨r, hregion, hcreated, htype, -⟩ := gcRegionSetup_record m t p
  have hread : (m.setRegion p r).region p = r := Function.update_self ..
  exact (h.setRegion (Or.inl rfl)).enlist hp ((congrArg GcRegion.type hread).trans htype)
    (gcRegionSetup_links m t p) hcreated hregion

theorem alloc (h : OnTypeLists m lists none) (t : GcRegionType) {env : RegionEnv}
    (hfresh : ∀ p, env.addr = some p → p ∉ m.created) :
    ∃ lists', OnTypeLists (gcRegionAlloc m t env).1 lists' none := by
  rcases h.alloc_cases t env with ⟨p, ps, hl, he⟩ | ⟨-, -, p, r, hc, he⟩ | ⟨-, -, he⟩
  · obtain ⟨hp, htype, -⟩ := (h.mem .empty p).mp (hl ▸ List.mem_cons_self)
    have hoff : OnTypeLists (m.unlist p .empty) _ (some p) := h.unlist hp htype rfl rfl rfl
    rw [he]
    exact ⟨_, hoff.setup hp t⟩
  · rw [he]
    exact ⟨_, (h.create (hfresh p (gcRegionCreate_record hc).1.1)).setup
      (List.mem_append_right _ (List.mem_singleton_self p)) t⟩
  · rw [he]
    exact ⟨lists, h⟩

/-! ### `gc_region_free` -/

theorem free (h : OnTypeLists m lists none) (hp : p ∈ m.created) (hp0 : p ≠ 0) :
    ∃ lists', OnTypeLists (gcRegionFree m p) lists' none := by
  obtain ⟨r, hregion, hcreated, hlinks, -, htype, -⟩ := gcRegionFree_record (m := m) hp0
  have hoff : OnTypeLists { m with links := listDel m.links (.region p) } _ (some p) :=
    h.unlist hp rfl rfl rfl rfl
  have hset := hoff.setRegion (r := r) (Or.inl rfl)
  have hread : Function.update m.region p r p = r := Function.update_self ..
  exact ⟨_, hset.enlist hp ((congrArg GcRegion.type hread).trans htype) hlinks hcreated hregion⟩

end OnTypeLists

namespace TypeLists

theorem unlist (h : TypeLists m lists none) (hp : p ∈ m.created) (hpt : (m.region p).type = t) :
    TypeLists (m.unlist p t) (Function.update lists t ((lists t).erase p)) (some p) := by
  subst hpt
  have hin : p ∈ lists (m.region p).type := (h.mem _ p).mpr ⟨hp, rfl, by simp⟩
  have hlen := h.length_le (m.region p).type
  have hpos : 0 < (lists (m.region p).type).length := List.length_pos_of_mem hin
  refine ⟨h.toOnTypeLists.unlist hp rfl rfl rfl rfl, fun t => ?_, h.few, h.nonNull⟩
  show Function.update m.regionCount _ _ t = _
  by_cases ht : t = (m.region p).type
  · subst ht
    rw [Function.update_self, Function.update_self, h.count, List.length_erase_of_mem hin]
    exact subW_eq hpos (lt_of_le_of_lt hlen h.few)
  · rw [Function.update_of_ne ht, Function.update_of_ne ht, h.count]

theorem enlist (h : TypeLists m lists (some p)) (hp : p ∈ m.created)
    (hpt : (m.region p).type = t) :
    TypeLists (m.enlist p t) (Function.update lists t (lists t ++ [p])) none := by
  subst hpt
  have hlen : (lists (m.region p).type).length < m.created.length :=
    h.length_lt hp fun hin => ((h.mem _ p).mp hin).2.2 rfl
  refine ⟨h.toOnTypeLists.enlist hp rfl rfl rfl rfl, fun t => ?_, h.few, h.nonNull⟩
  show Function.update m.regionCount _ _ t = _
  by_cases ht : t = (m.region p).type
  · subst ht
    rw [Function.update_self, Function.update_self, h.count, List.length_append]
    exact addW_eq (lt_of_le_of_lt (Nat.succ_le_of_lt hlen) h.few)
  · rw [Function.update_of_ne ht, Function.update_of_ne ht, h.count]

theorem setRegion (h : TypeLists m lists off) {r : GcRegion}
    (htype : off = some p ∨ r.type = (m.region p).type) :
    TypeLists (m.setRegion p r) lists off :=
  ⟨h.toOnTypeLists.setRegion htype, h.count, h.few, h.nonNull⟩

end TypeLists

namespace RegionInv

theorem created_index (h : RegionInv m lists off) (hp : p ∈ m.created) :
    p ≠ 0 ∧ (m.region p).size = GC_REGION_SIZE_DEFAULT := by
  obtain ⟨i, hi⟩ := List.mem_iff_getElem?.mp hp
  exact ⟨(h.record i p hi).1, (h.record i p hi).2.2⟩

theorem created_le (h : RegionInv m lists off) : m.created.length ≤ 1024 := by
  have h1 := h.numLe
  rw [h.max, h.num] at h1
  exact h1

theorem typeLists (h : RegionInv m lists off) : TypeLists m lists off := by
  refine ⟨⟨h.circ, h.mem⟩, h.count, lt_of_le_of_lt h.created_le ?_,
    fun h0 => (h.created_index h0).1 rfl⟩
  rw [wordSize_eq]
  decide

theorem length_le (h : RegionInv m lists off) (t : GcRegionType) :
    (lists t).length ≤ m.created.length :=
  h.typeLists.length_le t

theorem unlist (h : RegionInv m lists none) (hp : p ∈ m.created) (hpt : (m.region p).type = t) :
    RegionInv (m.unlist p t) (Function.update lists t ((lists t).erase p)) (some p) := by
  obtain ⟨⟨hcirc, hmem⟩, hcount, -, -⟩ := h.typeLists.unlist hp hpt
  exact ⟨hcirc, hmem, hcount, h.nodup, h.registry, h.num, h.numLe, h.max, h.record, h.total⟩

theorem enlist (h : RegionInv m lists (some p)) (hp : p ∈ m.created)
    (hpt : (m.region p).type = t) :
    RegionInv (m.enlist p t) (Function.update lists t (lists t ++ [p])) none := by
  obtain ⟨⟨hcirc, hmem⟩, hcount, -, -⟩ := h.typeLists.enlist hp hpt
  exact ⟨hcirc, hmem, hcount, h.nodup, h.registry, h.num, h.numLe, h.max, h.record, h.total⟩

theorem setRegion (h : RegionInv m lists off) {r : GcRegion} (hid : r.id = (m.region p).id)
    (hsize : r.size = (m.region p).size) (htype : off = some p ∨ r.type = (m.region p).type) :
    RegionInv (m.setRegion p r) lists off := by
  obtain ⟨⟨hcirc, hmem⟩, hcount, -, -⟩ := h.typeLists.setRegion htype
  refine ⟨hcirc, hmem, hcount, h.nodup, h.registry, h.num, h.numLe, h.max, fun i q hq => ?_,
    h.total⟩
  show q ≠ 0 ∧ (Function.update m.region p r q).id = i ∧
    (Function.update m.region p r q).size = _
  obtain ⟨h1, h2, h3⟩ := h.record i q hq
  by_cases hqp : q = p
  · subst hqp
    rw [Function.update_self]
    exact ⟨h1, hid.trans h2, hsize.trans h3⟩
  · rw [Function.update_of_ne hqp]
    exact ⟨h1, h2, h3⟩

theorem withUsed (h : RegionInv m lists off) (used : ℕ) :
    RegionInv { m with usedSize := used } lists off :=
  ⟨h.circ, h.mem, h.count, h.nodup, h.registry, h.num, h.numLe, h.max, h.record, h.total⟩

theorem withZeroed (h : RegionInv m lists off) (zeroed : List (ℕ × ℕ)) :
    RegionInv { m with zeroed := zeroed } lists off :=
  ⟨h.circ, h.mem, h.count, h.nodup, h.registry, h.num, h.numLe, h.max, h.record, h.total⟩

theorem bytes_lt (h : RegionInv m lists off) :
    GC_REGION_SIZE_DEFAULT * m.created.length + GC_REGION_SIZE_DEFAULT < wordSize := by
  have hle := h.created_le
  have hsize : GC_REGION_SIZE_DEFAULT = 2097152 := rfl
  rw [hsize, wordSize_eq]
  omega

/-! ### `gc_region_alloc` -/

theorem setup (h : RegionInv m lists (some p)) (hp : p ∈ m.created)
    (hused : m.usedSize + GC_REGION_SIZE_DEFAULT * (lists .empty).length + GC_REGION_SIZE_DEFAULT =
      GC_REGION_SIZE_DEFAULT * m.created.length) (t : GcRegionType) :
    RegionInv (gcRegionSetup m t p) (Function.update lists t (lists t ++ [p])) none ∧
      UsedBytes (gcRegionSetup m t p) (Function.update lists t (lists t ++ [p])) := by
  obtain ⟨r, hr, hid, hsize, htype⟩ : ∃ r : GcRegion, r = { m.region p with
      type := t
      prevType := .empty
      age := 0
      gcEpoch := 0
      allocatedBytes := 0
      liveBytes := 0
      garbageBytes := 0
      needsReclaim := false
      isCompactingTarget := false
      isRelocationTarget := false } ∧
      r.id = (m.region p).id ∧ r.size = (m.region p).size ∧ r.type = t :=
    ⟨_, rfl, rfl, rfl, rfl⟩
  have hset := h.setRegion hid hsize (Or.inl rfl)
  have hread : (m.setRegion p r).region p = r := Function.update_self ..
  have hinv := hset.enlist hp ((congrArg GcRegion.type hread).trans htype)
  have hbytes := h.bytes_lt
  have hps := (h.created_index hp).2
  unfold gcRegionSetup
  rw [← hr]
  dsimp only
  by_cases ht : t = .empty
  · subst ht
    rw [if_pos rfl]
    refine ⟨hinv, ?_⟩
    show m.usedSize + _ * (Function.update lists _ _ _).length = _ * m.created.length
    rw [Function.update_self, List.length_append, List.length_singleton, Nat.mul_add, ← hused]
    omega
  · rw [if_neg ht]
    refine ⟨hinv.withUsed _, ?_⟩
    show addW m.usedSize ((m.setRegion p r).region p).size +
      _ * (Function.update lists _ _ _).length = _ * m.created.length
    rw [hread, hsize, hps, Function.update_of_ne (Ne.symm ht), addW_eq (by omega), ← hused]
    omega

theorem create (h : RegionInv m lists none) {r : GcRegion} (hp0 : p ≠ 0) (hp : p ∉ m.created)
    (hsize : r.size = GC_REGION_SIZE_DEFAULT) (hnum : m.numRegions < m.maxRegions) :
    RegionInv (m.addCreated p r) lists (some p) := by
  have hne : ∀ q ∈ m.created, q ≠ p := fun q hq he => hp (he ▸ hq)
  have hbytes := h.bytes_lt
  have htotal := h.total
  obtain ⟨hcirc, hmem⟩ := h.typeLists.create (r := r) hp
  refine ⟨hcirc, hmem, h.count, ?_, fun i => ?_, ?_, hnum, h.max, fun i q hq => ?_, ?_⟩
  · exact List.nodup_append.mpr ⟨h.nodup, List.nodup_singleton p, fun q hq n hn => by
      rw [List.mem_singleton.mp hn]
      exact hne q hq⟩
  · show Function.update m.regions m.numRegions (some p) i = (m.created ++ [p])[i]?
    by_cases hi : i = m.numRegions
    · rw [hi, Function.update_self, h.num, List.getElem?_concat_length]
    · rw [Function.update_of_ne hi, h.registry]
      rw [h.num] at hi
      rcases Nat.lt_or_ge i m.created.length with hlt | hge
      · rw [List.getElem?_append_left hlt]
      · rw [List.getElem?_eq_none hge, List.getElem?_eq_none]
        rw [List.length_append, List.length_singleton]
        omega
  · show m.numRegions + 1 = (m.created ++ [p]).length
    rw [List.length_append, h.num, List.length_singleton]
  · show q ≠ 0 ∧ (Function.update m.region p { r with id := m.numRegions } q).id = i ∧
      (Function.update m.region p { r with id := m.numRegions } q).size = _
    have hq' : (m.created ++ [p])[i]? = some q := hq
    rcases Nat.lt_or_ge i m.created.length with hlt | hge
    · rw [List.getElem?_append_left hlt] at hq'
      rw [Function.update_of_ne (hne q (List.mem_of_getElem? hq'))]
      exact h.record i q hq'
    · rw [List.getElem?_append_right hge] at hq'
      obtain ⟨hi, hpq⟩ := List.getElem?_eq_some_iff.mp hq'
      rw [List.length_singleton] at hi
      rw [List.getElem_singleton] at hpq
      subst hpq
      rw [Function.update_self]
      have hid : m.numRegions = i := by
        rw [h.num]
        omega
      exact ⟨hp0, hid, hsize⟩
  · show addW m.totalSize r.size = _ * (m.created ++ [p]).length
    rw [hsize, List.length_append, List.length_singleton, Nat.mul_add, Nat.mul_one, htotal]
    exact addW_eq hbytes

theorem reuse (h : RegionInv m lists none) (hu : UsedBytes m lists) (t : GcRegionType)
    {ps : List ℕ} (hl : lists .empty = p :: ps) :
    RegionInv (gcRegionSetup (m.unlist p .empty) t p)
        (Function.update (Function.update lists .empty ps) t
          (Function.update lists .empty ps t ++ [p])) none ∧
      UsedBytes (gcRegionSetup (m.unlist p .empty) t p)
        (Function.update (Function.update lists .empty ps) t
          (Function.update lists .empty ps t ++ [p])) := by
  obtain ⟨hp, htype, -⟩ := (h.mem .empty p).mp (hl ▸ List.mem_cons_self)
  have hunlist := h.unlist hp htype
  rw [hl, List.erase_cons_head] at hunlist
  refine hunlist.setup hp ?_ t
  show m.usedSize + _ * (Function.update lists _ _ _).length + _ = _ * m.created.length
  rw [Function.update_self, ← hu, hl, List.length_cons, Nat.mul_add]
  omega

theorem add (h : RegionInv m lists none) (hu : UsedBytes m lists) (t : GcRegionType)
    {r : GcRegion} (hp0 : p ≠ 0) (hp : p ∉ m.created) (hsize : r.size = GC_REGION_SIZE_DEFAULT)
    (hnum : m.numRegions < m.maxRegions) :
    RegionInv (gcRegionSetup (m.addCreated p r) t p)
        (Function.update lists t (lists t ++ [p])) none ∧
      UsedBytes (gcRegionSetup (m.addCreated p r) t p)
        (Function.update lists t (lists t ++ [p])) := by
  refine (h.create hp0 hp hsize hnum).setup ?_ ?_ t
  · exact List.mem_append_right _ (List.mem_singleton_self p)
  · show m.usedSize + _ + _ = _ * (m.created ++ [p]).length
    rw [hu, List.length_append, List.length_singleton, Nat.mul_add, Nat.mul_one]

/-- **`gc_region_alloc`**, from a free region, a new one, or not at all. -/
theorem alloc (h : RegionInv m lists none) (hu : UsedBytes m lists) (t : GcRegionType)
    {env : RegionEnv} (hfresh : ∀ p, env.addr = some p → p ≠ 0 ∧ p ∉ m.created) :
    ∃ lists', RegionInv (gcRegionAlloc m t env).1 lists' none ∧
      UsedBytes (gcRegionAlloc m t env).1 lists' := by
  rcases h.typeLists.alloc_cases t env with
    ⟨p, ps, hl, he⟩ | ⟨-, hnum, p, r, hc, he⟩ | ⟨-, -, he⟩
  · rw [he]
    exact ⟨_, h.reuse hu t hl⟩
  · obtain ⟨⟨haddr, -⟩, hsize, -⟩ := gcRegionCreate_record hc
    obtain ⟨hp0, hp⟩ := hfresh p haddr
    rw [he]
    exact ⟨_, h.add hu t hp0 hp hsize hnum⟩
  · rw [he]
    exact ⟨lists, h, hu⟩

/-! ### `gc_region_free` -/

/-- **`gc_region_free`** of a region in use: it goes to the free regions. -/
theorem free (h : RegionInv m lists none) (hu : UsedBytes m lists) (hp : p ∈ m.created)
    (ht : (m.region p).type ≠ .empty) :
    ∃ lists', (RegionInv (gcRegionFree m p) lists' none ∧ UsedBytes (gcRegionFree m p) lists') ∧
      ∀ t, t ≠ .empty → lists' t = (lists t).erase p := by
  obtain ⟨hp0, hps⟩ := h.created_index hp
  obtain ⟨r, hr, hid, hsize, htype⟩ : ∃ r : GcRegion, r = { m.region p with
      type := .empty
      prevType := .empty
      age := 0
      allocatedBytes := 0
      liveBytes := 0
      garbageBytes := 0 } ∧
      r.id = (m.region p).id ∧ r.size = (m.region p).size ∧ r.type = .empty :=
    ⟨_, rfl, rfl, rfl, rfl⟩
  have hread : Function.update m.region p r p = r := Function.update_self ..
  have hset := (((h.unlist hp rfl).withUsed (subW m.usedSize (m.region p).size)).setRegion
    (r := r) hid hsize (Or.inl rfl)).withZeroed
      (m.zeroed ++ [((m.region p).baseAddr, (m.region p).size)])
  have hinv := hset.enlist hp ((congrArg GcRegion.type hread).trans htype)
  have hbytes := h.bytes_lt
  have hlt := Nat.mul_le_mul_left GC_REGION_SIZE_DEFAULT (Nat.succ_le_of_lt
    (h.typeLists.length_lt hp fun hin => ht ((h.mem _ p).mp hin).2.1))
  unfold gcRegionFree
  rw [if_neg hp0]
  dsimp only
  rw [if_neg ht, ← hr]
  refine ⟨_, ⟨hinv, ?_⟩, fun t htt => ?_⟩
  swap
  · rw [Function.update_of_ne htt]
    by_cases he : t = (m.region p).type
    · rw [he, Function.update_self]
    · rw [Function.update_of_ne he,
        List.erase_of_not_mem fun hin => he ((h.mem t p).mp hin).2.1.symm]
  show subW m.usedSize (m.region p).size + _ * (Function.update (Function.update lists _ _) _ _ _).length =
    _ * m.created.length
  unfold UsedBytes at hu
  rw [Nat.mul_succ] at hlt
  rw [Function.update_self, Function.update_of_ne (Ne.symm ht), List.length_append,
    List.length_singleton, Nat.mul_add, hps, subW_eq (by omega) (by omega), ← hu]
  omega

/-! ### `gc_region_promote`, `gc_region_age` -/

/-- One of the two branches of `gc_region_promote` that put the region on another list. -/
theorem move (h : RegionInv m lists none) (hu : UsedBytes m lists) (hp : p ∈ m.created)
    {source target : GcRegionType} (ht : (m.region p).type = source) (hs : source ≠ .empty)
    (htarget : target ≠ .empty) {r : GcRegion} (hr : r = { m.region p with type := target }) :
    ∃ lists', RegionInv (((m.unlist p source).setRegion p r).enlist p target) lists' none ∧
      UsedBytes (((m.unlist p source).setRegion p r).enlist p target) lists' := by
  have hread : Function.update m.region p r p = r := Function.update_self ..
  have hset := (h.unlist hp ht).setRegion (r := r) (by rw [hr]; rfl) (by rw [hr]; rfl) (Or.inl rfl)
  refine ⟨_, hset.enlist hp ((congrArg GcRegion.type hread).trans (by rw [hr])), ?_⟩
  show m.usedSize + _ * (Function.update (Function.update lists _ _) _ _ _).length = _
  rw [Function.update_of_ne (Ne.symm htarget), Function.update_of_ne (Ne.symm hs)]
  exact hu

/-- **`gc_region_age`** of a region in use. -/
theorem age (h : RegionInv m lists none) (hu : UsedBytes m lists) (hp : p ∈ m.created) :
    ∃ lists', RegionInv (gcRegionAge m p) lists' none ∧ UsedBytes (gcRegionAge m p) lists' := by
  obtain ⟨hp0, -⟩ := h.created_index hp
  obtain ⟨r, hr⟩ : ∃ r : GcRegion,
      r = { m.region p with age := ((m.region p).age + 1) % 2 ^ 32 } := ⟨_, rfl⟩
  have hset : RegionInv (m.setRegion p r) lists none :=
    h.setRegion (by rw [hr]) (by rw [hr]) (Or.inr (by rw [hr]))
  have hread : (m.setRegion p r).region p = r := Function.update_self ..
  have htype : r.type = (m.region p).type := by rw [hr]
  unfold gcRegionAge
  rw [if_neg hp0]
  dsimp only
  rw [← hr]
  unfold gcRegionPromote
  rw [if_neg hp0]
  dsimp only
  rw [hread, htype]
  split_ifs with h1 h2
  · rw [h1.1]
    exact hset.move hu hp (by rw [hread, htype, h1.1]) (by decide) (by decide) (by rw [hread])
  · rw [h2.1]
    exact hset.move hu hp (by rw [hread, htype, h2.1]) (by decide) (by decide) (by rw [hread])
  · exact ⟨lists, hset, hu⟩

/-! ### what the invariant says -/

theorem sum_sizes (h : RegionInv m lists off) {l : List ℕ} (hl : ∀ p ∈ l, p ∈ m.created) :
    (l.map fun p => (m.region p).size).sum = GC_REGION_SIZE_DEFAULT * l.length := by
  have hmap : (l.map fun p => (m.region p).size) = l.map fun _ => GC_REGION_SIZE_DEFAULT :=
    List.map_congr_left fun p hp => (h.created_index (hl p hp)).2
  rw [hmap, List.map_const', List.sum_replicate, smul_eq_mul, Nat.mul_comm]

/-- Every region is free or in use. -/
theorem length_free_add (h : RegionInv m lists none) :
    (m.created.filter fun p => (m.region p).type ≠ .empty).length + (lists .empty).length =
      m.created.length := by
  have hnd := h.typeLists.list_nodup .empty
  have hperm : (lists .empty).Perm (m.created.filter fun p => !decide ((m.region p).type ≠ .empty)) := by
    refine (List.perm_ext_iff_of_nodup hnd (h.nodup.filter _)).mpr fun p => ?_
    rw [h.mem, List.mem_filter]
    simp
  rw [hperm.length_eq]
  exact List.length_eq_length_filter_add _ |>.symm

theorem consistent (h : RegionInv m lists none) (hu : UsedBytes m lists) : m.Consistent lists := by
  refine ⟨h.circ.circ, h.circ.noFault, fun t p => ?_, h.count, h.nodup,
    fun h0 => (h.created_index h0).1 rfl, fun i hi => ?_, fun p hp => ?_, h.numLe, ?_, ?_⟩
  · rw [h.mem]
    simp
  · rw [h.num] at hi
    have hget : m.created[i]? = some m.created[i] := List.getElem?_eq_getElem hi
    exact ⟨_, List.getElem_mem hi, (h.registry i).trans hget, (h.record i _ hget).2.1⟩
  · obtain ⟨i, hi⟩ := List.mem_iff_getElem?.mp hp
    refine ⟨i, ?_, (h.registry i).trans hi⟩
    rw [h.num]
    exact (List.getElem?_eq_some_iff.mp hi).1
  · rw [h.sum_sizes fun _ hp => hp, h.total]
  · rw [h.sum_sizes fun p hp => (List.mem_filter.mp hp).1]
    have hlen := h.length_free_add
    unfold UsedBytes at hu
    rw [← hlen, Nat.mul_add] at hu
    omega

end RegionInv

end

/-! ## histories -/

inductive GcRegionOp where
  | alloc (type : GcRegionType) (env : RegionEnv)
  | free (p : ℕ)
  | age (p : ℕ)

def GcRegionManager.step (m : GcRegionManager) : GcRegionOp → GcRegionManager
  | .alloc type env => (gcRegionAlloc m type env).1
  | .free p => gcRegionFree m p
  | .age p => gcRegionAge m p

/-- One of the five types of a region in use is asked for, malloc answers with memory that is not
in use, and only regions in use are freed and aged. -/
def GcRegionOp.Legal (m : GcRegionManager) : GcRegionOp → Prop
  | .alloc type env => type ≠ .empty ∧ ∀ p, env.addr = some p → p ≠ 0 ∧ p ∉ m.created
  | .free p => p ∈ m.created ∧ (m.region p).type ≠ .empty
  | .age p => p ∈ m.created ∧ (m.region p).type ≠ .empty

theorem gcRegionManagerInit_inv :
    RegionInv gcRegionManagerInit (fun _ => []) none ∧ UsedBytes gcRegionManagerInit fun _ => [] := by
  refine ⟨⟨⟨fun t => ?_, fun t t' hne n hn hn' => ?_, rfl⟩, fun t p => ?_, fun _ => rfl,
    List.nodup_nil, fun _ => rfl, rfl, Nat.zero_le _, rfl, fun i p hp => ?_, rfl⟩, rfl⟩
  · refine ⟨?_, ?_, List.nodup_singleton _⟩
    · cases t <;> rfl
    · cases t <;> rfl
  · rw [List.mem_singleton.mp hn] at hn'
    exact hne (GcNode.head.inj (List.mem_singleton.mp hn'))
  · simp [gcRegionManagerInit]
  · exact absurd hp (by simp [gcRegionManagerInit])

theorem region_inv_step (m : GcRegionManager) (op : GcRegionOp)
    (h : ∃ lists, RegionInv m lists none ∧ UsedBytes m lists) (hl : op.Legal m) :
    ∃ lists, RegionInv (m.step op) lists none ∧ UsedBytes (m.step op) lists := by
  obtain ⟨lists, hinv, hu⟩ := h
  cases op with
  | alloc type env => exact hinv.alloc hu type hl.2
  | free p =>
    obtain ⟨lists', hfreed, -⟩ := hinv.free hu hl.1 hl.2
    exact ⟨lists', hfreed⟩
  | age p => exact hinv.age hu hl.1

theorem region_inv_after (ops : List GcRegionOp)
    (hlegal : Runs.Each GcRegionManager.step GcRegionOp.Legal gcRegionManagerInit ops) :
    ∃ lists, (Runs.after GcRegionManager.step gcRegionManagerInit ops).Consistent lists := by
  obtain ⟨lists, hinv, hu⟩ := Runs.inv_after region_inv_step ⟨_, gcRegionManagerInit_inv⟩ hlegal
  exact ⟨lists, hinv.consistent hu⟩

/-- **Lists, types, counters, array and byte totals agree** in every state reached from
`gc_region_manager_init`. -/
theorem region_lists_hold (ops : List GcRegionOp)
    (hlegal : Runs.Each GcRegionManager.step GcRegionOp.Legal gcRegionManagerInit ops) :
    Runs.Always GcRegionManager.step (fun m => ∃ lists, m.Consistent lists) gcRegionManagerInit
      ops :=
  (Runs.inv_always region_inv_step ⟨_, gcRegionManagerInit_inv⟩ hlegal).mono
    fun _ ⟨lists, hinv, hu⟩ => ⟨lists, hinv.consistent hu⟩

/-- A region is created, promoted by its second year, freed and used again. -/
theorem region_lists_hold_run :
    Runs.Always GcRegionManager.step (fun m => ∃ lists, m.Consistent lists) gcRegionManagerInit
      [.alloc .young ⟨some 100, some 0x200000, true, true⟩, .age 100, .age 100, .free 100,
        .alloc .old ⟨none, none, true, true⟩] := by
  refine region_lists_hold _ ?_
  refine ⟨⟨by decide, fun p hp => ?_⟩, ⟨by decide, by decide⟩, ⟨by decide, by decide⟩,
    ⟨by decide, by decide⟩, ⟨by decide, fun p hp => ?_⟩, trivial⟩
  · cases hp
    exact ⟨by decide, by decide⟩
  · exact absurd hp (by simp)

end Nomalloc
