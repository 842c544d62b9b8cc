import Nomalloc.Gc.Books
import Nomalloc.Lib.MemLog
import Nomalloc.Utils.Memory

/-!
# The memory of the regions

`gc_region_create` takes a record, a mapping and two bitmaps, and gives back what it got when one of them
is refused; `gc_region_manager_shutdown` gives back those of all regions.  Two of the messages read the
record after it was freed: that of `gc_region_create` where `mmap` refuses (`region->size`), and that of
`gc_region_destroy` (`region->id`).  The log holds what `gc_region_create` and `gc_region_destroy` free,
and these two reads; their other accesses, to records and bitmaps that they have not freed yet, are not
in it.

* `gcRegionCreateMemory`     what `gc_region_create` takes and gives back;
* `GcRegionMemory`           the region manager, with its memory, over any number of lives;
* `Custody`                  what was taken is in use or given back, once, and the regions share no page;
* `gcRegionCreateMemory_ok`, `destroyed_loop`   one call of each;
* `region_memory_custody`    so it is all along a run, in which a freed record is read exactly when a
                             shutdown finds a region or `mmap` refuses a new one.
-/

namespace Nomalloc

open Pages MemEvent

/-- The pointer, unless it is NULL. -/
def unlessNull (p : ℕ) : List ℕ := if p = 0 then [] else [p]

/-- What `gc_region_create` is answered for the record, by `mmap`, and for the bitmaps; zero is NULL. -/
structure RegionAnswer where
  record : ℕ
  raw : Option ℕ
  marking : ℕ
  live : ℕ

/-- What `gc_region_create` did: the answers as the region sees them, the pages, the blocks that it got,
those that it freed, and whether it read a record after that. -/
structure RegionMade where
  env : RegionEnv
  space : AddressSpace
  malloced : List ℕ
  log : List (MemEvent ℕ)

/-- The part of `gc_region_create` that comes after the mapping. -/
def gcRegionBitmapsMemory (page : ℕ) (space : AddressSpace) (base size : ℕ) (e : RegionAnswer) :
    RegionMade :=
  let env : RegionEnv := ⟨some e.record, some base, e.marking ≠ 0, e.live ≠ 0⟩
  let malloced := [e.record] ++ unlessNull e.marking ++ unlessNull e.live
  if e.marking = 0 ∨ e.live = 0 then
    ⟨env, memoryFreeAligned page space base size GC_REGION_SIZE_DEFAULT, malloced,
      frees (unlessNull e.marking ++ unlessNull e.live ++ [e.record])⟩
  else ⟨env, space, malloced, []⟩

/-- `gc_region_create` where `mmap` refuses; the message at the end reads `region->size`. -/
def gcRegionUnmapped (space : AddressSpace) (e : RegionAnswer) : RegionMade :=
  ⟨⟨some e.record, none, false, false⟩, space, [e.record], [.free e.record, .access e.record]⟩

/-- `gc_region_create`, as libc and the kernel see it. -/
def gcRegionCreateMemory (page : ℕ) (space : AddressSpace) (size : ℕ) (e : RegionAnswer) :
    RegionMade :=
  if e.record = 0 then ⟨⟨none, none, false, false⟩, space, [], []⟩
  else
    match memoryAllocAligned page space e.raw (alignUp size GC_REGION_SIZE_DEFAULT)
      GC_REGION_SIZE_DEFAULT with
    | (space, none) => gcRegionUnmapped space e
    | (space, some base) =>
      if base = 0 then gcRegionUnmapped space e
      else gcRegionBitmapsMemory page space base (alignUp size GC_REGION_SIZE_DEFAULT) e

/-- The region manager, with the pointers to the bitmaps of every record, the pages, the blocks that
were got from libc, and the log of `gc_region_create` and `gc_region_destroy`. -/
structure GcRegionMemory where
  manager : GcRegionManager
  /-- `initialized` of the collector, which guards the two calls -/
  up : Bool
  bitmaps : ℕ → ℕ × ℕ
  space : AddressSpace
  malloced : List ℕ
  log : List (MemEvent ℕ)

inductive GcRegionMemoryOp where
  | init
  | shutdown
  | alloc (type : GcRegionType) (e : RegionAnswer)
  | free (p : ℕ)
  | age (p : ℕ)

namespace GcRegionMemory

/-- Before the first `gc_init`. -/
def start (space : AddressSpace) : GcRegionMemory :=
  ⟨Gc.zero.manager, false, fun _ => (0, 0), space, [], []⟩

/-- `gc_region_manager_init`, as `gc_init` calls it -/
def gcRegionManagerInit (s : GcRegionMemory) : GcRegionMemory :=
  if s.up then s else { s with manager := Nomalloc.gcRegionManagerInit, up := true }

/-- A new region is made. -/
def creates (s : GcRegionMemory) : Bool :=
  listEmpty s.manager.links (.head .empty) && decide (s.manager.numRegions < s.manager.maxRegions)

/-- `gc_region_create` was called; the bitmaps are those of the record, if it stays. -/
def took (s : GcRegionMemory) (m' : GcRegionManager) (e : RegionAnswer) (made : RegionMade) :
    GcRegionMemory :=
  { s with
    manager := m'
    bitmaps := Function.update s.bitmaps e.record (e.marking, e.live)
    space := made.space
    malloced := s.malloced ++ made.malloced
    log := s.log ++ made.log }

def allocWith (s : GcRegionMemory) (type : GcRegionType) (e : RegionAnswer) (made : RegionMade) :
    GcRegionMemory :=
  if s.creates then s.took (Nomalloc.gcRegionAlloc s.manager type made.env).1 e made
  else { s with manager := (Nomalloc.gcRegionAlloc s.manager type made.env).1 }

/-- `gc_region_alloc` -/
def gcRegionAlloc (page : ℕ) (s : GcRegionMemory) (type : GcRegionType) (e : RegionAnswer) :
    GcRegionMemory :=
  s.allocWith type e (gcRegionCreateMemory page s.space GC_REGION_SIZE_DEFAULT e)

/-- The blocks of a region, in the order in which `gc_region_destroy` frees them. -/
def blocksOf (s : GcRegionMemory) (p : ℕ) : List ℕ :=
  unlessNull (s.bitmaps p).1 ++ unlessNull (s.bitmaps p).2 ++ [p]

/-- `gc_region_destroy`; the message at the end reads `region->id`. -/
def gcRegionDestroy (page : ℕ) (s : GcRegionMemory) (p : ℕ) : GcRegionMemory :=
  if p = 0 then s
  else
    let r := s.manager.region p
    { s with
      space := memoryFreeAligned page s.space r.baseAddr r.size GC_REGION_SIZE_DEFAULT
      log := s.log ++ (frees (s.blocksOf p) ++ [.access p]) }

/-- The body of the loop of `gc_region_manager_shutdown` -/
def destroyAt (page : ℕ) (s : GcRegionMemory) (i : ℕ) : GcRegionMemory :=
  match s.manager.regions i with
  | none => s
  | some p =>
    let s := s.gcRegionDestroy page p
    { s with manager := { s.manager with regions := Function.update s.manager.regions i none } }

/-- `gc_region_manager_shutdown`, as `gc_shutdown` calls it -/
def gcRegionManagerShutdown (page : ℕ) (s : GcRegionMemory) : GcRegionMemory :=
  if !s.up then s
  else
    let s := (List.range s.manager.numRegions).foldl (destroyAt page) s
    { s with manager := { s.manager with numRegions := 0 }, up := false }

def step (page : ℕ) (s : GcRegionMemory) : GcRegionMemoryOp → GcRegionMemory
  | .init => s.gcRegionManagerInit
  | .shutdown => s.gcRegionManagerShutdown page
  | .alloc type e => s.gcRegionAlloc page type e
  | .free p => { s with manager := gcRegionFree s.manager p }
  | .age p => { s with manager := gcRegionAge s.manager p }

/-- The regions that there are. -/
def regions (s : GcRegionMemory) : List ℕ := if s.up then s.manager.created else []

/-- A call leaves alone what it freed: it does not create a region that `mmap` refuses, and is no
shutdown that finds a region. -/
def SparesFreed (s : GcRegionMemory) : GcRegionMemoryOp → Prop
  | .shutdown => s.regions = []
  | .alloc _ e => s.creates = true → e.record ≠ 0 → e.raw ≠ none
  | .init | .free _ | .age _ => True

/-- The pages of a region. -/
def pagesOf (page : ℕ) (s : GcRegionMemory) (p : ℕ) : Finset ℕ :=
  pagesOver page (s.manager.region p).baseAddr (s.manager.region p).size

/-- What was taken is in use or given back, once; `others` are the pages of others. -/
structure Custody (page : ℕ) (others : Finset ℕ) (s : GcRegionMemory) : Prop where
  memory : (s.regions.flatMap s.blocksOf ++ freed s.log).Perm s.malloced
  apart : s.regions.Pairwise fun p q => Disjoint (s.pagesOf page p) (s.pagesOf page q)
  own : ∀ p ∈ s.regions, Disjoint others (s.pagesOf page p)
  pages : s.space.pages = others ∪ s.regions.toFinset.biUnion (s.pagesOf page)

/-- The functions on regions are for a collector that is up.  malloc answers with a record that is not
in use, the kernel with pages that are not mapped. -/
def Legal (page : ℕ) (s : GcRegionMemory) : GcRegionMemoryOp → Prop
  | .init | .shutdown => True
  | .alloc type e => s.up = true ∧ type ≠ .empty ∧ (e.record ≠ 0 → e.record ∉ s.manager.created) ∧
      ∀ raw, e.raw = some raw → Maps page wordSize s.space.pages raw
        (alignUp (GC_REGION_SIZE_DEFAULT + GC_REGION_SIZE_DEFAULT) page)
  | .free p => s.up = true ∧ (GcRegionOp.free p).Legal s.manager
  | .age p => s.up = true ∧ (GcRegionOp.age p).Legal s.manager

end GcRegionMemory

/-! ## a region -/

section
variable {page : ℕ} {space : AddressSpace} {e : RegionAnswer}

theorem alignUp_region :
    alignUp GC_REGION_SIZE_DEFAULT GC_REGION_SIZE_DEFAULT = GC_REGION_SIZE_DEFAULT := by
  decide

/-- Where the mapping of a region may lie. -/
def RegionPlace (page base : ℕ) : Prop := page ∣ base ∧ base ≠ 0 ∧ base < wordSize

/-- The pages that the kernel maps for a region. -/
structure RegionMapped (page : ℕ) (space space' : AddressSpace) (base : ℕ) : Prop where
  place : RegionPlace page base
  fresh : Disjoint space.pages (pagesOver page base GC_REGION_SIZE_DEFAULT)
  pages : space'.pages = space.pages ∪ pagesOver page base GC_REGION_SIZE_DEFAULT

/-- `memory_alloc_aligned` of a region. -/
theorem memoryAllocAligned_region {raw : ℕ} (hpage : isPowerOfTwo page = true)
    (hdvd : page ∣ GC_REGION_SIZE_DEFAULT)
    (hraw : Maps page wordSize space.pages raw
      (alignUp (GC_REGION_SIZE_DEFAULT + GC_REGION_SIZE_DEFAULT) page)) :
    ∃ space' base, memoryAllocAligned page space (some raw) GC_REGION_SIZE_DEFAULT
        GC_REGION_SIZE_DEFAULT = (space', some base) ∧ RegionMapped page space space' base := by
  have hle : page ≤ GC_REGION_SIZE_DEFAULT := Nat.le_of_dvd (by decide) hdvd
  have hword : GC_REGION_SIZE_DEFAULT + GC_REGION_SIZE_DEFAULT + page ≤ wordSize := by
    unfold GC_REGION_SIZE_DEFAULT wordSize at *
    omega
  obtain ⟨space', he, hm⟩ := memoryAllocAligned_spec hpage (by decide) hword hraw
  have hkept : ∀ o, memoryKept page GC_REGION_SIZE_DEFAULT GC_REGION_SIZE_DEFAULT o =
      GC_REGION_SIZE_DEFAULT := fun o => if_pos hdvd
  have hfresh := hm.fresh
  have hpages := hm.pages
  rw [hkept] at hfresh hpages
  have hroom : GC_REGION_SIZE_DEFAULT + GC_REGION_SIZE_DEFAULT ≤
      alignUp (GC_REGION_SIZE_DEFAULT + GC_REGION_SIZE_DEFAULT) page :=
    le_alignUp (isPowerOfTwo_pos hpage) (by unfold GC_REGION_SIZE_DEFAULT wordSize at *; omega)
  have hplace := hm.place
  have hbelow := hraw.below
  have hnonNull := hraw.nonNull
  have hpos : 0 < GC_REGION_SIZE_DEFAULT := by decide
  exact ⟨space', _, he, ⟨hm.onPage, by omega, by omega⟩, hfresh, hpages⟩

/-- `memory_free_aligned` of a region. -/
theorem memoryFreeAligned_region {base : ℕ} (hpage : isPowerOfTwo page = true)
    (hdvd : page ∣ GC_REGION_SIZE_DEFAULT) (hbase : RegionPlace page base) (space : AddressSpace) :
    (memoryFreeAligned page space base GC_REGION_SIZE_DEFAULT GC_REGION_SIZE_DEFAULT).pages =
      space.pages \ pagesOver page base GC_REGION_SIZE_DEFAULT := by
  have hle : page ≤ GC_REGION_SIZE_DEFAULT := Nat.le_of_dvd (by decide) hdvd
  have hpos := isPowerOfTwo_pos hpage
  obtain ⟨⟨q, rfl⟩, hne, hlt⟩ := hbase
  have hsize : alignUp GC_REGION_SIZE_DEFAULT page = GC_REGION_SIZE_DEFAULT :=
    alignUp_of_dvd hpos hdvd (by unfold GC_REGION_SIZE_DEFAULT wordSize at *; omega)
  have hq : 0 < q := Nat.pos_of_ne_zero fun h0 => hne (by rw [h0, Nat.mul_zero])
  rw [Nat.mul_comm] at hlt ⊢
  rw [memoryFreeAligned_pages hpage hq hlt (by unfold GC_REGION_SIZE_DEFAULT wordSize at *; omega),
    hsize]

/-- One of the answers to `gc_region_create` is NULL. -/
def RegionEnv.Refused (env : RegionEnv) : Prop :=
  env.addr = none ∨ env.base = none ∨ env.markingOk = false ∨ env.liveOk = false

theorem gcRegionCreate_eq_none_iff (size : ℕ) (env : RegionEnv) :
    gcRegionCreate size env = none ↔ env.Refused := by
  unfold gcRegionCreate RegionEnv.Refused
  cases env.addr with
  | none => exact iff_of_true rfl (Or.inl rfl)
  | some addr =>
    cases env.base with
    | none => exact iff_of_true rfl (Or.inr (Or.inl rfl))
    | some base =>
      dsimp only
      cases env.markingOk <;> cases env.liveOk
      · exact iff_of_true rfl (Or.inr (Or.inr (Or.inl rfl)))
      · exact iff_of_true rfl (Or.inr (Or.inr (Or.inl rfl)))
      · exact iff_of_true rfl (Or.inr (Or.inr (Or.inr rfl)))
      · refine iff_of_false (fun h => nomatch h) ?_
        rintro (h | h | h | h) <;> cases h

/-- What `gc_region_create` leaves behind: nothing, or a region. -/
structure RegionMade.Ok (page : ℕ) (space : AddressSpace) (e : RegionAnswer) (made : RegionMade) :
    Prop where
  addr : ∀ p, made.env.addr = some p → p ≠ 0 ∧ p = e.record
  result : (made.env.Refused ∧ made.space.pages = space.pages ∧
      (freed made.log).Perm made.malloced) ∨
    ∃ base, made.env = ⟨some e.record, some base, true, true⟩ ∧ e.record ≠ 0 ∧ made.log = [] ∧
      made.malloced.Perm (unlessNull e.marking ++ unlessNull e.live ++ [e.record]) ∧
      RegionMapped page space made.space base
  reads : (∃ ps, made.log = frees ps ∧ (e.record ≠ 0 → e.raw ≠ none)) ∨
    (made.log = [.free e.record, .access e.record] ∧ e.record ≠ 0 ∧ e.raw = none)

theorem gcRegionBitmapsMemory_ok {space' : AddressSpace} {base : ℕ} (hpage : isPowerOfTwo page = true)
    (hdvd : page ∣ GC_REGION_SIZE_DEFAULT) (hrecord : e.record ≠ 0) (hraw : e.raw ≠ none)
    (hm : RegionMapped page space space' base) :
    (gcRegionBitmapsMemory page space' base GC_REGION_SIZE_DEFAULT e).Ok page space e := by
  have hcomm : ([e.record] ++ unlessNull e.marking ++ unlessNull e.live).Perm
      (unlessNull e.marking ++ unlessNull e.live ++ [e.record]) := by
    rw [List.append_assoc]
    exact List.perm_append_comm
  have haddr : ∀ p, some e.record = some p → p ≠ 0 ∧ p = e.record := by
    rintro p ⟨⟩
    exact ⟨hrecord, rfl⟩
  unfold gcRegionBitmapsMemory
  by_cases hbits : e.marking = 0 ∨ e.live = 0
  · rw [if_pos hbits]
    refine ⟨haddr, Or.inl ⟨Or.inr (Or.inr ?_), ?_, ?_⟩, Or.inl ⟨_, rfl, fun _ => hraw⟩⟩
    · exact hbits.imp (fun h => decide_eq_false (not_not_intro h))
        fun h => decide_eq_false (not_not_intro h)
    · -- the mapping goes, and the pages are as before
      refine (memoryFreeAligned_region hpage hdvd hm.place space').trans ?_
      rw [hm.pages]
      exact Finset.union_sdiff_cancel_right hm.fresh
    · rw [freed_frees]
      exact hcomm.symm
  · rw [if_neg hbits]
    obtain ⟨hmarking, hlive⟩ := not_or.mp hbits
    have henv : (⟨some e.record, some base, e.marking ≠ 0, e.live ≠ 0⟩ : RegionEnv) =
        ⟨some e.record, some base, true, true⟩ := by
      rw [decide_eq_true hmarking, decide_eq_true hlive]
    exact ⟨haddr, Or.inr ⟨base, henv, hrecord, rfl, hcomm, hm⟩, Or.inl ⟨[], rfl, fun _ => hraw⟩⟩

theorem gcRegionCreateMemory_ok (hpage : isPowerOfTwo page = true)
    (hdvd : page ∣ GC_REGION_SIZE_DEFAULT) (hraw : ∀ raw, e.raw = some raw →
      Maps page wordSize space.pages raw
        (alignUp (GC_REGION_SIZE_DEFAULT + GC_REGION_SIZE_DEFAULT) page)) :
    (gcRegionCreateMemory page space GC_REGION_SIZE_DEFAULT e).Ok page space e := by
  unfold gcRegionCreateMemory
  by_cases hrecord : e.record = 0
  · rw [if_pos hrecord]
    exact ⟨fun p hp => (nomatch hp), Or.inl ⟨Or.inl rfl, rfl, .refl _⟩,
      Or.inl ⟨[], rfl, fun hne => absurd hrecord hne⟩⟩
  rw [if_neg hrecord, alignUp_region]
  cases hr : e.raw with
  | none =>
    have hnone : memoryAllocAligned page space none GC_REGION_SIZE_DEFAULT GC_REGION_SIZE_DEFAULT =
        (space, none) := rfl
    rw [hnone]
    refine ⟨?_, Or.inl ⟨Or.inr (Or.inl rfl), rfl, .refl _⟩, Or.inr ⟨rfl, hrecord, hr⟩⟩
    rintro p ⟨⟩
    exact ⟨hrecord, rfl⟩
  | some raw =>
    obtain ⟨space', base, he, hm⟩ := memoryAllocAligned_region hpage hdvd (hraw raw hr)
    rw [he]
    show (if base = 0 then _ else _ : RegionMade).Ok page space e
    rw [if_neg hm.place.2.1]
    exact gcRegionBitmapsMemory_ok hpage hdvd hrecord (by rw [hr]; exact Option.some_ne_none raw) hm

end

namespace GcRegionMemory

section
variable {page : ℕ} {others : Finset ℕ} {s : GcRegionMemory} {m' : GcRegionManager} {p : ℕ}

/-! ## the calls on regions -/

/-- What every run keeps. -/
structure Inv (page : ℕ) (others : Finset ℕ) (s : GcRegionMemory) : Prop where
  lists : s.up = true → ∃ lists, ListsOk s.manager lists
  placed : ∀ p ∈ s.regions, RegionPlace page (s.manager.region p).baseAddr
  custody : Custody page others s

theorem regions_up (h : s.up = true) : s.regions = s.manager.created := if_pos h

theorem regions_down (h : s.up = false) : s.regions = [] := by
  unfold regions
  rw [h]
  rfl

/-- A call that neither makes a region nor moves one. -/
theorem Inv.call (h : Inv page others s) (hlists : ∃ lists, ListsOk m' lists)
    (hcreated : m'.created = s.manager.created)
    (hplace : ∀ q, (m'.region q).baseAddr = (s.manager.region q).baseAddr ∧
      (m'.region q).size = (s.manager.region q).size) : Inv page others { s with manager := m' } := by
  have hregions : regions { s with manager := m' } = s.regions := by
    unfold regions
    dsimp only
    rw [hcreated]
  have hpages : pagesOf page { s with manager := m' } = s.pagesOf page := by
    funext q
    unfold pagesOf
    dsimp only
    rw [(hplace q).1, (hplace q).2]
  obtain ⟨hmemory, hapart, hown, hall⟩ := h.custody
  refine ⟨fun _ => hlists, fun q hq => ?_, ?_, ?_, ?_, ?_⟩
  · rw [hregions] at hq
    rw [(hplace q).1]
    exact h.placed q hq
  · rw [hregions]
    exact hmemory
  · rw [hregions, hpages]
    exact hapart
  · rw [hregions, hpages]
    exact hown
  · rw [hregions, hpages]
    exact hall

theorem Inv.free (h : Inv page others s) (hlegal : Legal page s (.free p)) :
    Inv page others (s.step page (.free p)) := by
  obtain ⟨lists, hlists⟩ := h.lists hlegal.1
  obtain ⟨r, hregion, hcreated, -, -, -, ⟨hbase, hsize⟩, -⟩ :=
    gcRegionFree_record (m := s.manager) (hlists.1.created_index hlegal.2.1).1
  refine h.call (region_inv_step s.manager _ ⟨lists, hlists⟩ hlegal.2) hcreated fun q => ?_
  rw [hregion]
  exact ⟨field_update GcRegion.baseAddr hbase q, field_update GcRegion.size hsize q⟩

theorem Inv.age (h : Inv page others s) (hlegal : Legal page s (.age p)) :
    Inv page others (s.step page (.age p)) := by
  obtain ⟨lists, hlists⟩ := h.lists hlegal.1
  obtain ⟨-, -, hcreated, -⟩ :=
    gcRegionAge_record (m := s.manager) (hlists.1.created_index hlegal.2.1).1
  exact h.call (region_inv_step s.manager _ ⟨lists, hlists⟩ hlegal.2) hcreated fun q =>
    ⟨gcRegionAge_field GcRegion.baseAddr (fun _ _ => rfl) (fun _ _ => rfl) s.manager p q,
      gcRegionAge_field GcRegion.size (fun _ _ => rfl) (fun _ _ => rfl) s.manager p q⟩

theorem creates_of_empty {lists : GcRegionType → List ℕ} (h : ListsOk s.manager lists)
    (hl : lists .empty = []) :
    s.creates = decide (s.manager.numRegions < s.manager.maxRegions) := by
  unfold creates
  rcases h.1.typeLists.first_free with ⟨hempty, -⟩ | ⟨p, ps, hcons, -⟩
  · rw [hempty, Bool.true_and]
  · rw [hl] at hcons
    cases hcons

theorem not_creates {lists : GcRegionType → List ℕ} {ps : List ℕ} (h : ListsOk s.manager lists)
    (hl : lists .empty = p :: ps) : s.creates = false := by
  unfold creates
  rcases h.1.typeLists.first_free with ⟨-, hnil⟩ | ⟨-, -, -, -, hempty⟩
  · rw [hl] at hnil
    cases hnil
  · rw [hempty, Bool.false_and]

theorem took_blocks {e : RegionAnswer} {made : RegionMade} {ps : List ℕ} (hps : e.record ∉ ps) :
    ps.flatMap (s.took m' e made).blocksOf = ps.flatMap s.blocksOf := by
  refine List.flatMap_congr fun q hq => ?_
  have hne : q ≠ e.record := fun he => hps (he ▸ hq)
  show unlessNull (Function.update s.bitmaps e.record _ q).1 ++
    unlessNull (Function.update s.bitmaps e.record _ q).2 ++ [q] = _
  rw [Function.update_of_ne hne]
  rfl

theorem took_blocks_record {e : RegionAnswer} {made : RegionMade} :
    (s.took m' e made).blocksOf e.record =
      unlessNull e.marking ++ unlessNull e.live ++ [e.record] := by
  show unlessNull (Function.update s.bitmaps e.record _ e.record).1 ++
    unlessNull (Function.update s.bitmaps e.record _ e.record).2 ++ _ = _
  rw [Function.update_self]

/-- `gc_region_create` gave back what it got. -/
theorem Inv.refused (h : Inv page others s) {e : RegionAnswer} {made : RegionMade}
    (hout : e.record ∉ s.regions) (hpages : made.space.pages = s.space.pages)
    (hfreed : (freed made.log).Perm made.malloced) : Inv page others (s.took s.manager e made) := by
  obtain ⟨hmemory, hapart, hown, hall⟩ := h.custody
  refine ⟨h.lists, h.placed, ?_, hapart, hown, hpages.trans hall⟩
  show (s.regions.flatMap _ ++ freed (s.log ++ made.log)).Perm (s.malloced ++ made.malloced)
  rw [took_blocks hout, freed_append, ← List.append_assoc]
  exact hmemory.append hfreed

/-- The blocks of a new region are in use. -/
theorem made_memory {e : RegionAnswer} {made : RegionMade} (hout : e.record ∉ s.regions)
    (hmemory : (s.regions.flatMap s.blocksOf ++ freed s.log).Perm s.malloced)
    (hregions : (s.took m' e made).regions = s.regions ++ [e.record]) (hlog : made.log = [])
    (hmalloced : made.malloced.Perm (unlessNull e.marking ++ unlessNull e.live ++ [e.record])) :
    ((s.took m' e made).regions.flatMap (s.took m' e made).blocksOf ++
      freed (s.took m' e made).log).Perm (s.took m' e made).malloced := by
  rw [hregions, List.flatMap_append, took_blocks hout, List.flatMap_singleton, took_blocks_record]
  show (_ ++ _ ++ freed (s.log ++ made.log)).Perm (s.malloced ++ made.malloced)
  rw [hlog, List.append_nil, List.append_assoc]
  refine (List.perm_append_comm.append_left _).trans ?_
  rw [← List.append_assoc]
  exact hmemory.append hmalloced.symm

/-- A region is made. -/
theorem Inv.made (h : Inv page others s) (hup : s.up = true) {e : RegionAnswer} {made : RegionMade}
    {r : GcRegion} (hlists : ∃ lists, ListsOk m' lists) (hout : e.record ∉ s.manager.created)
    (hcreated : m'.created = s.manager.created ++ [e.record])
    (hregion : m'.region = Function.update s.manager.region e.record r)
    (hsize : r.size = GC_REGION_SIZE_DEFAULT) (hlog : made.log = [])
    (hmalloced : made.malloced.Perm (unlessNull e.marking ++ unlessNull e.live ++ [e.record]))
    (hm : RegionMapped page s.space made.space r.baseAddr) :
    Inv page others (s.took m' e made) := by
  have hregions : (s.took m' e made).regions = s.regions ++ [e.record] := by
    rw [regions_up hup, ← hcreated]
    exact if_pos hup
  have hone : (s.took m' e made).pagesOf page e.record =
      pagesOver page r.baseAddr GC_REGION_SIZE_DEFAULT := by
    show pagesOver page (m'.region e.record).baseAddr (m'.region e.record).size = _
    rw [hregion, Function.update_self, hsize]
  have hne : ∀ q ∈ s.regions, q ≠ e.record := by
    rw [regions_up hup]
    rintro q hq rfl
    exact hout hq
  have hother : ∀ q ∈ s.regions, m'.region q = s.manager.region q := fun q hq => by
    rw [hregion, Function.update_of_ne (hne q hq)]
  have hothers : ∀ q ∈ s.regions, (s.took m' e made).pagesOf page q = s.pagesOf page q :=
    fun q hq => by
      show pagesOver page (m'.region q).baseAddr (m'.region q).size = _
      rw [hother q hq]
      rfl
  obtain ⟨hmemory, hapart, hown, hall⟩ := h.custody
  -- the new pages were not mapped
  have hfresh := hm.fresh
  rw [hall, Finset.disjoint_union_left, Finset.disjoint_biUnion_left] at hfresh
  have hmem : ∀ q, q ∈ s.regions ++ [e.record] ↔ q ∈ s.regions ∨ q = e.record := fun q => by
    rw [List.mem_append, List.mem_singleton]
  refine ⟨fun _ => hlists, fun q hq => ?_, ?_, ?_, fun q hq => ?_, ?_⟩
  · rw [hregions, hmem] at hq
    show RegionPlace page (m'.region q).baseAddr
    rcases hq with hq | rfl
    · rw [hother q hq]
      exact h.placed q hq
    · rw [hregion, Function.update_self]
      exact hm.place
  · exact made_memory (regions_up hup ▸ hout) hmemory hregions hlog hmalloced
  · rw [hregions]
    refine List.pairwise_append.mpr ⟨hapart.imp_of_mem fun {p q} hp hq hpq => ?_,
      List.pairwise_singleton .., fun q hq q' hq' => ?_⟩
    · rw [hothers p hp, hothers q hq]
      exact hpq
    · rw [List.mem_singleton.mp hq', hone, hothers q hq]
      exact hfresh.2 q (List.mem_toFinset.mpr hq)
  · rw [hregions, hmem] at hq
    rcases hq with hq | rfl
    · rw [hothers q hq]
      exact hown q hq
    · rw [hone]
      exact hfresh.1
  · rw [hregions]
    show made.space.pages = _
    rw [hm.pages, hall, Finset.union_assoc, List.toFinset_append, Finset.union_biUnion]
    congr 1
    congr 1
    · exact Finset.biUnion_congr rfl fun q hq => (hothers q (List.mem_toFinset.mp hq)).symm
    · rw [List.toFinset_cons, List.toFinset_nil, Finset.insert_empty, Finset.singleton_biUnion, hone]

theorem Inv.allocWith (h : Inv page others s) (hup : s.up = true) {type : GcRegionType}
    (htype : type ≠ .empty) {e : RegionAnswer} {made : RegionMade} (hok : made.Ok page s.space e)
    (hfresh : e.record ≠ 0 → e.record ∉ s.manager.created) :
    Inv page others (s.allocWith type e made) := by
  obtain ⟨lists, hlists⟩ := h.lists hup
  have hout : e.record ∉ s.manager.created := fun hin =>
    hfresh (hlists.1.created_index hin).1 hin
  have hlegal : (GcRegionOp.alloc type made.env).Legal s.manager :=
    ⟨htype, fun p hp => ⟨(hok.addr p hp).1, (hok.addr p hp).2 ▸ hout⟩⟩
  have hafter : ∃ lists, ListsOk (Nomalloc.gcRegionAlloc s.manager type made.env).1 lists :=
    region_inv_step s.manager (.alloc type made.env) ⟨lists, hlists⟩ hlegal
  unfold GcRegionMemory.allocWith
  rcases hlists.1.typeLists.alloc_cases type made.env with
    ⟨p, ps, hl, he⟩ | ⟨hl, hnum, p, r, hc, he⟩ | ⟨hl, hnone, he⟩
  · -- a region is used again
    obtain ⟨r, hregion, hcreated, -, -, ⟨hbase, hsize⟩, -⟩ :=
      gcRegionSetup_record (s.manager.unlist p .empty) type p
    rw [not_creates hlists hl, if_neg Bool.false_ne_true]
    rw [he] at hafter ⊢
    refine h.call hafter hcreated fun q => ?_
    dsimp only
    rw [hregion]
    exact ⟨field_update GcRegion.baseAddr hbase q, field_update GcRegion.size hsize q⟩
  · -- one is made
    rw [creates_of_empty hlists hl, if_pos (decide_eq_true hnum)]
    rcases hok.result with ⟨hrefused, -⟩ | ⟨base, henv, -, hlog, hmalloced, hm⟩
    · rw [(gcRegionCreate_eq_none_iff _ _).mpr hrefused] at hc
      cases hc
    obtain ⟨⟨haddr, hbase⟩, hsize, -⟩ := gcRegionCreate_record hc
    rw [henv] at haddr hbase
    cases haddr
    cases hbase
    obtain ⟨r', hregion, hcreated, -, -, ⟨hbase', hsize'⟩, -⟩ :=
      gcRegionSetup_record (s.manager.addCreated e.record r) type e.record
    have hread : (s.manager.addCreated e.record r).region e.record =
        { r with id := s.manager.numRegions } := Function.update_self ..
    rw [hread] at hbase' hsize'
    rw [he] at hafter ⊢
    exact h.made hup hafter hout hcreated (hregion.trans (Function.update_idem ..))
      (hsize'.trans hsize) hlog hmalloced (by rw [hbase']; exact hm)
  · rw [creates_of_empty hlists hl, he]
    by_cases hnum : s.manager.numRegions < s.manager.maxRegions
    · rw [if_pos (decide_eq_true hnum)]
      rcases hok.result with ⟨-, hpages, hfreed⟩ | ⟨base, henv, -⟩
      · exact h.refused (regions_up hup ▸ hout) hpages hfreed
      · have hrefused := (gcRegionCreate_eq_none_iff _ _).mp (hnone hnum)
        rw [henv] at hrefused
        rcases hrefused with hno | hno | hno | hno <;> cases hno
    · rw [if_neg fun hd => hnum (of_decide_eq_true hd)]
      exact h

/-! ## the shutdown -/

/-- What `gc_region_destroy` does with the blocks of the regions. -/
def destroyLog (s : GcRegionMemory) (ps : List ℕ) : List (MemEvent ℕ) :=
  ps.flatMap fun p => frees (s.blocksOf p) ++ [.access p]

theorem freed_destroyLog (s : GcRegionMemory) (ps : List ℕ) :
    freed (s.destroyLog ps) = ps.flatMap s.blocksOf := by
  induction ps with
  | nil => rfl
  | cons p ps ih =>
    unfold destroyLog at ih ⊢
    rw [List.flatMap_cons, List.flatMap_cons, freed_append, freed_append, freed_frees, ih]
    exact congrArg (· ++ _) (List.append_nil _)

/-- What the loop of `gc_region_manager_shutdown` has done when it was at the regions `ps`. -/
structure Destroyed (page : ℕ) (s s' : GcRegionMemory) (ps : List ℕ) : Prop where
  up : s'.up = s.up
  pages : s'.space.pages = s.space.pages \ ps.toFinset.biUnion (s.pagesOf page)
  log : s'.log = s.log ++ s.destroyLog ps
  malloced : s'.malloced = s.malloced

theorem destroyed_loop (hpage : isPowerOfTwo page = true) (hdvd : page ∣ GC_REGION_SIZE_DEFAULT)
    {is : List ℕ} (hnd : is.Nodup)
    (hps : ∀ i ∈ is, ∀ p, s.manager.regions i = some p →
      p ≠ 0 ∧ RegionPlace page (s.manager.region p).baseAddr ∧
        (s.manager.region p).size = GC_REGION_SIZE_DEFAULT) :
    Destroyed page s (is.foldl (destroyAt page) s) (is.filterMap s.manager.regions) := by
  induction is generalizing s with
  | nil => exact ⟨rfl, Finset.sdiff_empty.symm, (List.append_nil _).symm, rfl⟩
  | cons i is ih =>
    obtain ⟨hi, hnd⟩ := List.nodup_cons.mp hnd
    have hrest := fun j (hj : j ∈ is) => hps j (List.mem_cons_of_mem i hj)
    cases hr : s.manager.regions i with
    | none =>
      have hs : destroyAt page s i = s := by
        unfold destroyAt
        rw [hr]
      rw [List.foldl_cons, List.filterMap_cons_none hr, hs]
      exact ih hnd hrest
    | some p =>
      obtain ⟨hp0, hplace, hsize⟩ := hps i List.mem_cons_self p hr
      obtain ⟨s', hs', hs⟩ : ∃ s', s' = destroyAt page s i ∧ s' =
          { s with
            manager := { s.manager with regions := Function.update s.manager.regions i none }
            space := memoryFreeAligned page s.space (s.manager.region p).baseAddr
              (s.manager.region p).size GC_REGION_SIZE_DEFAULT
            log := s.log ++ (frees (s.blocksOf p) ++ [.access p]) } := by
        refine ⟨_, rfl, ?_⟩
        unfold destroyAt gcRegionDestroy
        rw [hr]
        show ({ (if p = 0 then s else _) with manager := _ } : GcRegionMemory) = _
        rw [if_neg hp0]
      -- the other entries of the table are as before
      have hkeep : ∀ j ∈ is, s'.manager.regions j = s.manager.regions j := fun j hj => by
        rw [hs]
        exact Function.update_of_ne (fun he : j = i => hi (he ▸ hj)) ..
      have hpages : s'.pagesOf page = s.pagesOf page := by
        rw [hs]
        rfl
      have hloop := ih (s := s') hnd fun j hj q hq => by
        rw [hkeep j hj] at hq
        rw [hs]
        exact hrest j hj q hq
      rw [List.filterMap_congr hkeep] at hloop
      rw [List.foldl_cons, List.filterMap_cons_some hr, ← hs']
      refine ⟨?_, ?_, ?_, ?_⟩
      · rw [hloop.up, hs]
      · rw [hloop.pages, hpages, hs]
        show (memoryFreeAligned page s.space _ _ GC_REGION_SIZE_DEFAULT).pages \ _ = _
        rw [hsize, memoryFreeAligned_region hpage hdvd hplace, List.toFinset_cons, Finset.biUnion_insert,
          sdiff_sdiff]
        unfold pagesOf
        rw [hsize]
        rfl
      · rw [hloop.log, hs]
        show s.log ++ _ ++ destroyLog _ _ = _
        rw [List.append_assoc]
        rfl
      · rw [hloop.malloced, hs]

theorem filterMap_range {α : Type*} (l : List α) :
    (List.range l.length).filterMap (fun i => l[i]?) = l := by
  induction l with
  | nil => rfl
  | cons a l ih =>
    rw [List.length_cons, List.range_succ_eq_map, List.filterMap_cons, List.filterMap_map]
    exact congrArg (a :: ·) ih

/-- `gc_region_manager_shutdown` is at all regions. -/
theorem Inv.destroyed (h : Inv page others s) (hpage : isPowerOfTwo page = true)
    (hdvd : page ∣ GC_REGION_SIZE_DEFAULT) (hup : s.up = true) :
    Destroyed page s ((List.range s.manager.numRegions).foldl (destroyAt page) s) s.regions := by
  obtain ⟨lists, hlists, -⟩ := h.lists hup
  have hall : (List.range s.manager.numRegions).filterMap s.manager.regions = s.regions := by
    rw [regions_up hup, hlists.num, funext hlists.registry, filterMap_range]
  have hloop := destroyed_loop hpage hdvd (s := s) (List.nodup_range (n := s.manager.numRegions))
    fun i _ p hp => by
      have hin : p ∈ s.manager.created :=
        List.mem_of_getElem? ((hlists.registry i).symm.trans hp)
      exact ⟨(hlists.created_index hin).1, h.placed p (regions_up hup ▸ hin),
        (hlists.created_index hin).2⟩
  rw [hall] at hloop
  exact hloop

theorem Inv.shutdown (h : Inv page others s) (hpage : isPowerOfTwo page = true)
    (hdvd : page ∣ GC_REGION_SIZE_DEFAULT) : Inv page others (s.gcRegionManagerShutdown page) := by
  unfold GcRegionMemory.gcRegionManagerShutdown
  cases hup : s.up with
  | false => exact h
  | true =>
    have hd := h.destroyed hpage hdvd hup
    obtain ⟨hmemory, -, hown, hall⟩ := h.custody
    refine ⟨nofun, nofun, ?_, List.Pairwise.nil, nofun, ?_⟩
    · show (freed (List.foldl _ s _).log).Perm (List.foldl _ s _).malloced
      rw [hd.log, hd.malloced, freed_append, freed_destroyLog]
      exact List.perm_append_comm.trans hmemory
    · show (List.foldl _ s _).space.pages = others ∪ ∅
      rw [hd.pages, hall, Finset.union_empty]
      refine Finset.union_sdiff_cancel_right ((Finset.disjoint_biUnion_right _ _ _).mpr ?_)
      exact fun p hp => hown p (List.mem_toFinset.mp hp)

/-! ## runs -/

theorem Inv.step (hpage : isPowerOfTwo page = true) (hdvd : page ∣ GC_REGION_SIZE_DEFAULT)
    (s : GcRegionMemory) (op : GcRegionMemoryOp) (h : Inv page others s) (hlegal : Legal page s op) :
    Inv page others (s.step page op) := by
  cases op with
  | init =>
    show Inv page others s.gcRegionManagerInit
    unfold GcRegionMemory.gcRegionManagerInit
    cases hup : s.up with
    | true => exact h
    | false =>
      obtain ⟨hmemory, -, -, hall⟩ := h.custody
      rw [regions_down hup] at hmemory hall
      exact ⟨fun _ => ⟨_, gcRegionManagerInit_inv⟩, nofun, hmemory, List.Pairwise.nil, nofun, hall⟩
  | shutdown => exact h.shutdown hpage hdvd
  | alloc type e =>
    obtain ⟨hup, htype, hfresh, hraw⟩ := hlegal
    exact h.allocWith hup htype (gcRegionCreateMemory_ok hpage hdvd hraw) hfresh
  | free p => exact h.free hlegal
  | age p => exact h.age hlegal

theorem inv_start (page : ℕ) (space : AddressSpace) : Inv page space.pages (start space) :=
  ⟨nofun, nofun, ⟨.refl _, List.Pairwise.nil, nofun, (Finset.union_empty _).symm⟩⟩

/-- `gc_region_create` reads a freed record where `mmap` refuses, and only there. -/
theorem noUse_allocWith {type : GcRegionType} {e : RegionAnswer} {made : RegionMade}
    (hok : made.Ok page s.space e) :
    NoUseAfterFree (s.allocWith type e made).log ↔
      NoUseAfterFree s.log ∧ s.SparesFreed (.alloc type e) := by
  unfold allocWith SparesFreed
  by_cases hcreates : s.creates = true
  · rw [if_pos hcreates]
    show NoUseAfterFree (s.log ++ made.log) ↔ _
    rcases hok.reads with ⟨ps, hlog, hspares⟩ | ⟨hlog, hrecord, hraw⟩
    · rw [hlog, noUseAfterFree_append_frees]
      exact (and_iff_left fun _ => hspares).symm
    · refine iff_of_false ?_ fun hn => hn.2 hcreates hrecord hraw
      rw [hlog, List.append_cons]
      refine not_noUseAfterFree (p := e.record) ?_ (List.mem_singleton_self _)
      rw [freed_append]
      exact List.mem_append_right _ (List.mem_singleton_self _)
  · rw [if_neg hcreates]
    exact (and_iff_left fun hc => absurd hc hcreates).symm

/-- A freed record is read by the shutdown that finds a region, by the call that `mmap` refuses a new
one, and by no other call. -/
theorem Inv.noUse_step (h : Inv page others s) (hpage : isPowerOfTwo page = true)
    (hdvd : page ∣ GC_REGION_SIZE_DEFAULT) (op : GcRegionMemoryOp) (hlegal : Legal page s op) :
    NoUseAfterFree (s.step page op).log ↔ NoUseAfterFree s.log ∧ s.SparesFreed op := by
  cases op with
  | init =>
    have hlog : s.gcRegionManagerInit.log = s.log := by
      unfold GcRegionMemory.gcRegionManagerInit
      split_ifs <;> rfl
    show NoUseAfterFree s.gcRegionManagerInit.log ↔ _
    rw [hlog]
    exact (and_iff_left trivial).symm
  | shutdown =>
    show NoUseAfterFree (s.gcRegionManagerShutdown page).log ↔ _
    unfold GcRegionMemory.gcRegionManagerShutdown
    cases hup : s.up with
    | false =>
      exact (and_iff_left (regions_down hup)).symm
    | true =>
      show NoUseAfterFree (List.foldl _ s _).log ↔ _
      rw [(h.destroyed hpage hdvd hup).log]
      show _ ↔ NoUseAfterFree s.log ∧ s.regions = []
      cases hs : s.regions with
      | nil =>
        show NoUseAfterFree (s.log ++ []) ↔ _
        rw [List.append_nil]
        exact (and_iff_left rfl).symm
      | cons p ps =>
        refine iff_of_false ?_ fun hn => List.cons_ne_nil p ps hn.2
        -- the record is freed, and then read
        have hlog : s.log ++ s.destroyLog (p :: ps) =
            s.log ++ frees (s.blocksOf p) ++ ([.access p] ++ s.destroyLog ps) := by
          unfold destroyLog
          rw [List.flatMap_cons, List.append_assoc, List.append_assoc]
        rw [hlog]
        refine not_noUseAfterFree (p := p) ?_ List.mem_cons_self
        rw [freed_append, freed_frees]
        exact List.mem_append_right _ (List.mem_append_right _ List.mem_cons_self)
  | alloc type e =>
    obtain ⟨-, -, -, hraw⟩ := hlegal
    exact noUse_allocWith (gcRegionCreateMemory_ok hpage hdvd hraw)
  | free p => exact (and_iff_left trivial).symm
  | age p => exact (and_iff_left trivial).symm

theorem noUse_run (hpage : isPowerOfTwo page = true) (hdvd : page ∣ GC_REGION_SIZE_DEFAULT)
    {ops : List GcRegionMemoryOp} (h : Inv page others s)
    (hlegal : Runs.Each (step page) (Legal page) s ops) :
    NoUseAfterFree (Runs.after (step page) s ops).log ↔
      NoUseAfterFree s.log ∧ Runs.Each (step page) SparesFreed s ops := by
  induction ops generalizing s with
  | nil => exact ⟨fun hn => ⟨hn, trivial⟩, fun hn => hn.1⟩
  | cons op ops ih =>
    rw [Runs.after_cons, Runs.each_cons, ih (Inv.step hpage hdvd s op h hlegal.1) hlegal.2,
      h.noUse_step hpage hdvd op hlegal.1, and_assoc]

end

end GcRegionMemory

/-- **The memory of the regions is in use or given back, once**, over any number of lives of the
collector, and the regions share no page with each other or with others.  A freed record is read
exactly when a shutdown finds a region, by `gc_region_destroy`, or `mmap` refuses a new region, by
`gc_region_create`. -/
theorem region_memory_custody {page : ℕ} (hpage : isPowerOfTwo page = true)
    (hdvd : page ∣ GC_REGION_SIZE_DEFAULT) (space : AddressSpace) (ops : List GcRegionMemoryOp)
    (hlegal : Runs.Each (GcRegionMemory.step page) (GcRegionMemory.Legal page)
      (GcRegionMemory.start space) ops) :
    Runs.Always (GcRegionMemory.step page) (GcRegionMemory.Custody page space.pages)
        (GcRegionMemory.start space) ops ∧
      (NoUseAfterFree
          (Runs.after (GcRegionMemory.step page) (GcRegionMemory.start space) ops).log ↔
        Runs.Each (GcRegionMemory.step page) GcRegionMemory.SparesFreed
          (GcRegionMemory.start space) ops) := by
  have hstart := GcRegionMemory.inv_start page space
  refine ⟨(Runs.inv_always (GcRegionMemory.Inv.step hpage hdvd) hstart hlegal).mono
    fun _ h => h.custody, ?_⟩
  rw [GcRegionMemory.noUse_run hpage hdvd hstart hlegal]
  exact and_iff_right noUseAfterFree_nil

/-- A region is made, and the collector goes down, reading the freed record, and comes up again. -/
theorem region_memory_custody_twice :
    Runs.Always (GcRegionMemory.step 4096) (GcRegionMemory.Custody 4096 ∅)
        (GcRegionMemory.start ⟨∅, []⟩)
        [.init, .alloc .young ⟨100, some 0x201000, 200, 300⟩, .shutdown, .init] ∧
      ¬ NoUseAfterFree
        (Runs.after (GcRegionMemory.step 4096) (GcRegionMemory.start ⟨∅, []⟩)
          [.init, .alloc .young ⟨100, some 0x201000, 200, 300⟩, .shutdown, .init]).log := by
  have hlegal : Runs.Each (GcRegionMemory.step 4096) (GcRegionMemory.Legal 4096)
      (GcRegionMemory.start ⟨∅, []⟩)
      [.init, .alloc .young ⟨100, some 0x201000, 200, 300⟩, .shutdown, .init] := by
    refine ⟨trivial, ⟨rfl, nofun, fun _ => List.not_mem_nil, fun raw hraw => ?_⟩, trivial, trivial,
      trivial⟩
    cases hraw
    exact ⟨by decide, by decide, by decide, by decide, Finset.disjoint_empty_left _⟩
  obtain ⟨hcustody, hiff⟩ := region_memory_custody (by decide) (by decide) _ _ hlegal
  refine ⟨hcustody, fun hn => ?_⟩
  have hnone := (hiff.mp hn).2.2.1
  exact List.cons_ne_nil 100 [] hnone

end Nomalloc
