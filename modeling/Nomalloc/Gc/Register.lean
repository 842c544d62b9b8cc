import Nomalloc.Gc.Objects
import Nomalloc.Lib.Ranges

/-!
# Objects and `allocated_bytes`

`gc_register_object` adds the size of an object to the `allocated_bytes` of its region;
`gc_unregister_object`, which is not told the size, takes the size of the region off again.

* `GcObjects`               a collector, with the objects that are registered;
* `GcObjects.Accounted`     `allocated_bytes` is the size of the registered objects of a region;
* `ObjectCall.TakesRegion`  the object that goes is as large as its region;
* `registered_bytes_iff`    the accounts are right all along a run exactly when all that go are.
-/

namespace Nomalloc

open Ranges

/-- `gc_unregister_object` -/
def gcUnregisterObject (g : Gc) (ptr : ℕ) : Gc :=
  if !g.initialized || decide (ptr = 0) then g
  else
    match gcRegionGetByAddr g.manager ptr with
    | none => g
    | some p =>
      let r := g.manager.region p
      { g with
        manager := g.manager.setRegion p { r with allocatedBytes := subW r.allocatedBytes r.size } }

/-- The memory of a region. -/
def GcRegion.memory (r : GcRegion) : Range := ⟨r.baseAddr, r.size⟩

/-- A collector, with the objects that are registered. -/
structure GcObjects where
  gc : Gc
  objects : List Range

inductive ObjectCall where
  | register (o : Range)
  | unregister (o : Range)

namespace GcObjects

def step (s : GcObjects) : ObjectCall → GcObjects
  | .register o => ⟨gcRegisterObject s.gc o.start o.length, o :: s.objects⟩
  | .unregister o => ⟨gcUnregisterObject s.gc o.start, s.objects.erase o⟩

/-- What is asked of a state; the last condition is about the call of `memory_zero` that a
`gc_region_reclaim` would make. -/
structure Accounted (s : GcObjects) : Prop where
  bytes : ∀ p ∈ s.gc.manager.created, (s.gc.manager.region p).allocatedBytes =
    total (s.gc.manager.region p).memory s.objects
  fits : ∀ p ∈ s.gc.manager.created,
    (s.gc.manager.region p).allocatedBytes ≤ (s.gc.manager.region p).size
  zeroes : ∀ p ∈ s.gc.manager.created,
    ∀ z ∈ (gcRegionReclaim s.gc.manager p).zeroed.drop s.gc.manager.zeroed.length,
      Range.Within ⟨z.1, z.2⟩ (s.gc.manager.region p).memory

end GcObjects

/-- An object lies in a region, and apart from the others; one goes that was registered. -/
def ObjectCall.Legal (s : GcObjects) : ObjectCall → Prop
  | .register o => o.start ≠ 0 ∧
    (∃ p ∈ s.gc.manager.created, o.Within (s.gc.manager.region p).memory) ∧
    ∀ o' ∈ s.objects, o.Apart o'
  | .unregister o => o ∈ s.objects

/-- The object that goes is as large as the region that its address is found in, if it is found
in one. -/
def ObjectCall.TakesRegion (s : GcObjects) : ObjectCall → Prop
  | .register _ => True
  | .unregister o => ∀ p, gcRegionGetByAddr s.gc.manager o.start = some p →
    o.length = (s.gc.manager.region p).size

/-- The regions are as `gc_region_alloc` leaves them: apart, and nothing is allocated. -/
structure Gc.NothingAllocated (g : Gc) : Prop where
  initialized : g.initialized = true
  lists : ∃ lists, ListsOk g.manager lists
  apart : g.manager.Apart
  bytes : ∀ p ∈ g.manager.created,
    (g.manager.region p).allocatedBytes = 0 ∧ (g.manager.region p).liveBytes = 0

section
variable {g : Gc} {m : GcRegionManager} {lists : GcRegionType → List ℕ} {p q a : ℕ} {o : Range}
  {s : GcObjects}

/-! ## the region at an address -/

theorem contains_iff (h : m.Apart) (hp : p ∈ m.created) :
    (m.region p).contains a = true ↔ (m.region p).memory.Has a := by
  unfold GcRegion.contains
  rw [addW_eq (h.below p hp), decide_eq_true_iff]
  rfl

theorem memory_apart (h : m.Apart) (hp : p ∈ m.created) (hq : q ∈ m.created) (hne : p ≠ q) :
    (m.region p).memory.Apart (m.region q).memory := by
  rintro x ⟨hlo, hhi⟩ ⟨hlo', hhi'⟩
  rcases h.pairs p hp q hq hne with hle | hle
  · exact absurd (hhi.trans_le (hle.trans hlo')) (lt_irrefl x)
  · exact absurd (hhi'.trans_le (hle.trans hlo)) (lt_irrefl x)

theorem created_of_getByAddr (h : ListsOk m lists) (hget : gcRegionGetByAddr m a = some p) :
    p ∈ m.created := by
  obtain ⟨i, -, hi⟩ := getByAddr_registered hget
  rw [h.1.registry] at hi
  exact List.mem_of_getElem? hi

/-- `gc_region_get_by_addr` finds the region that has the address. -/
theorem getByAddr_iff (h : ListsOk m lists) (hapart : m.Apart) (hp : p ∈ m.created) :
    gcRegionGetByAddr m a = some p ↔ (m.region p).memory.Has a := by
  constructor
  · intro hget
    exact (contains_iff hapart hp).mp (getByAddr_contains hget)
  · intro hhas
    cases hget : gcRegionGetByAddr m a with
    | none =>
      obtain ⟨i, hi⟩ := List.mem_iff_getElem?.mp hp
      have hlt : i < m.numRegions := by
        rw [h.1.num]
        exact (List.getElem?_eq_some_iff.mp hi).1
      have hnone := List.findSome?_eq_none_iff.mp hget i (List.mem_range.mpr hlt)
      rw [h.1.registry, hi, Option.filter_some, (contains_iff hapart hp).mpr hhas] at hnone
      exact absurd hnone (by simp)
    | some q =>
      by_contra hne
      have hq := created_of_getByAddr h hget
      have hpq : q ≠ p := fun he => hne (congrArg some he)
      exact memory_apart hapart hq hp hpq a ((contains_iff hapart hq).mp (getByAddr_contains hget))
        hhas

/-! ## the calls -/

theorem gcUnregisterObject_bytes (hinit : g.initialized = true) (ptr : ℕ) :
    SameButBytes g (gcUnregisterObject g ptr) ∧
      ∀ q, ((gcUnregisterObject g ptr).manager.region q).allocatedBytes =
        if ptr ≠ 0 ∧ gcRegionGetByAddr g.manager ptr = some q then
          subW (g.manager.region q).allocatedBytes (g.manager.region q).size
        else (g.manager.region q).allocatedBytes := by
  unfold gcUnregisterObject
  rw [hinit, Bool.not_true, Bool.false_or]
  by_cases hptr : ptr = 0
  · rw [if_pos (decide_eq_true hptr)]
    exact ⟨SameButBytes.refl g, fun q => (if_neg fun hc => hc.1 hptr).symm⟩
  rw [if_neg fun hd => hptr (of_decide_eq_true hd)]
  cases hget : gcRegionGetByAddr g.manager ptr with
  | none => exact ⟨SameButBytes.refl g, fun q => (if_neg (by simp)).symm⟩
  | some p =>
    simp only [ne_eq, hptr, not_false_eq_true, true_and]
    exact SameButBytes.store (fun r => subW r.allocatedBytes r.size) ⟨hinit.symm, rfl, rfl⟩ rfl

theorem SameButBytes.memory {g' : Gc} (h : SameButBytes g g') (q : ℕ) :
    (g'.manager.region q).memory = (g.manager.region q).memory := by
  unfold GcRegion.memory
  rw [(h.place q).1, (h.place q).2]

/-- An object that lies in a region counts towards the region that its address is found in. -/
theorem share_eq (h : ListsOk m lists) (hapart : m.Apart)
    (ho : ∃ p ∈ m.created, o.Within (m.region p).memory) (hq : q ∈ m.created) :
    (m.region q).memory.share o =
      if gcRegionGetByAddr m o.start = some q then o.length else 0 := by
  unfold Range.share
  by_cases h0 : o.length = 0
  · rw [h0, ite_self, ite_self]
  · have hstart := Range.has_start (Nat.pos_of_ne_zero h0)
    have hiff : o.Within (m.region q).memory ↔ gcRegionGetByAddr m o.start = some q := by
      rw [getByAddr_iff h hapart hq]
      refine ⟨fun hin => hin.has hstart, fun hhas => ?_⟩
      obtain ⟨p, hp, hin⟩ := ho
      have hpq : p = q := by
        by_contra hne
        exact memory_apart hapart hp hq hne o.start (hin.has hstart) hhas
      rw [← hpq]
      exact hin
    exact if_congr hiff rfl rfl

/-! ## runs -/

namespace GcObjects

/-- What the calls keep, as long as the accounts are right. -/
structure Inv (s : GcObjects) : Prop where
  initialized : s.gc.initialized = true
  lists : ∃ lists, ListsOk s.gc.manager lists
  regions : s.gc.manager.Apart
  bytes : ∀ p ∈ s.gc.manager.created, (s.gc.manager.region p).allocatedBytes =
    total (s.gc.manager.region p).memory s.objects
  live : ∀ p ∈ s.gc.manager.created, (s.gc.manager.region p).liveBytes = 0
  inside : ∀ o ∈ s.objects, o.start ≠ 0 ∧
    ∃ p ∈ s.gc.manager.created, o.Within (s.gc.manager.region p).memory
  apart : s.objects.Pairwise Range.Apart

theorem inv_init (h : g.NothingAllocated) : Inv ⟨g, []⟩ :=
  ⟨h.initialized, h.lists, h.apart, fun p hp => (h.bytes p hp).1, fun p hp => (h.bytes p hp).2,
    fun _ ho => absurd ho List.not_mem_nil, List.Pairwise.nil⟩

namespace Inv

/-- The objects of a region fit into it. -/
theorem total_le_size (h : s.Inv) (p : ℕ) :
    total (s.gc.manager.region p).memory s.objects ≤ (s.gc.manager.region p).size :=
  total_le _ h.apart

theorem size_eq (h : s.Inv) (hp : p ∈ s.gc.manager.created) :
    (s.gc.manager.region p).size = GC_REGION_SIZE_DEFAULT := by
  obtain ⟨lists, hlists⟩ := h.lists
  exact (hlists.1.created_index hp).2

theorem accounted (h : s.Inv) : s.Accounted := by
  obtain ⟨lists, hlists⟩ := h.lists
  refine ⟨h.bytes, fun p hp => ?_, fun p hp z hz => ?_⟩
  · rw [h.bytes p hp]
    exact h.total_le_size p
  · obtain ⟨r, hrec, -⟩ := gcRegionReclaim_eq (m := s.gc.manager) (hlists.1.created_index hp).1
    have hle := h.total_le_size p
    have hbelow := h.regions.below p hp
    rw [hrec] at hz
    dsimp only at hz
    rw [List.drop_left, List.mem_singleton, h.live p hp, h.bytes p hp, addW_eq (by omega),
      subW_eq (Nat.zero_le _) (by omega)] at hz
    rw [hz]
    exact ⟨le_rfl, Nat.add_le_add_left hle _⟩

theorem next {s' : GcObjects} (h : s.Inv) (hg : SameButBytes s.gc s'.gc)
    (hbytes : ∀ p ∈ s.gc.manager.created, (s'.gc.manager.region p).allocatedBytes =
      total (s.gc.manager.region p).memory s'.objects)
    (hinside : ∀ o ∈ s'.objects, o.start ≠ 0 ∧
      ∃ p ∈ s.gc.manager.created, o.Within (s.gc.manager.region p).memory)
    (hapart : s'.objects.Pairwise Range.Apart) : s'.Inv := by
  obtain ⟨lists, hlists⟩ := h.lists
  refine ⟨hg.flags.initialized.trans h.initialized, ⟨lists, hg.lists lists hlists⟩,
    GcHeap.apart_congr h.regions hg.created hg.place,
    fun p hp => ?_, fun p hp => ?_, fun o ho => ?_, hapart⟩
  · rw [hg.created] at hp
    rw [hg.memory]
    exact hbytes p hp
  · rw [hg.created] at hp
    rw [hg.live]
    exact h.live p hp
  · obtain ⟨h0, p, hp, hin⟩ := hinside o ho
    refine ⟨h0, p, ?_, ?_⟩
    · rw [hg.created]
      exact hp
    · rw [hg.memory]
      exact hin

theorem register (h : s.Inv) (hl : (ObjectCall.register o).Legal s) :
    (s.step (.register o)).Inv := by
  obtain ⟨h0, hin, hapart⟩ := hl
  obtain ⟨lists, hlists⟩ := h.lists
  obtain ⟨hg, hbytes⟩ := gcRegisterObject_bytes h.initialized o.start o.length
  have hall : (o :: s.objects).Pairwise Range.Apart := List.pairwise_cons.mpr ⟨hapart, h.apart⟩
  refine h.next hg (fun p hp => ?_) (fun o' ho' => ?_) hall
  · have hle := total_le (s.gc.manager.region p).memory hall
    have hbelow := h.regions.below p hp
    have hsize : (s.gc.manager.region p).memory.length = (s.gc.manager.region p).size := rfl
    show ((gcRegisterObject s.gc o.start o.length).manager.region p).allocatedBytes =
      total _ (o :: s.objects)
    rw [hbytes p, if_congr (and_iff_right h0) rfl rfl, h.bytes p hp]
    rw [total_cons, share_eq hlists h.regions hin hp] at hle ⊢
    split_ifs with hget
    · rw [if_pos hget] at hle
      rw [addW_eq (by omega), Nat.add_comm]
    · rw [Nat.zero_add]
  · rcases List.mem_cons.mp ho' with rfl | ho'
    · exact ⟨h0, hin⟩
    · exact h.inside o' ho'

/-- What is left when an object goes, and what the call leaves. -/
theorem unregister_bytes (h : s.Inv) (ho : o ∈ s.objects) (hp : p ∈ s.gc.manager.created) :
    total (s.gc.manager.region p).memory (s.objects.erase o) +
        (if gcRegionGetByAddr s.gc.manager o.start = some p then o.length else 0) =
      total (s.gc.manager.region p).memory s.objects ∧
    ((gcUnregisterObject s.gc o.start).manager.region p).allocatedBytes =
      if gcRegionGetByAddr s.gc.manager o.start = some p then
        subW (total (s.gc.manager.region p).memory s.objects) (s.gc.manager.region p).size
      else total (s.gc.manager.region p).memory s.objects := by
  obtain ⟨lists, hlists⟩ := h.lists
  obtain ⟨h0, hin⟩ := h.inside o ho
  obtain ⟨-, hbytes⟩ := gcUnregisterObject_bytes h.initialized o.start
  refine ⟨?_, ?_⟩
  · rw [← share_eq hlists h.regions hin hp]
    exact total_erase ho _
  · rw [hbytes p, if_congr (and_iff_right h0) rfl rfl, h.bytes p hp]

theorem unregister (h : s.Inv) (ho : o ∈ s.objects)
    (htakes : (ObjectCall.unregister o).TakesRegion s) : (s.step (.unregister o)).Inv := by
  obtain ⟨hg, -⟩ := gcUnregisterObject_bytes h.initialized o.start
  refine h.next hg (fun p hp => ?_) (fun o' ho' => h.inside o' (List.mem_of_mem_erase ho'))
    (h.apart.sublist List.erase_sublist)
  obtain ⟨hleft, hbytes⟩ := h.unregister_bytes ho hp
  have hle := h.total_le_size p
  have hbelow := h.regions.below p hp
  refine hbytes.trans ?_
  show _ = total _ (s.objects.erase o)
  split_ifs with hget
  · rw [if_pos hget, htakes p hget] at hleft
    rw [subW_eq (by omega) (by omega)]
    omega
  · rw [if_neg hget] at hleft
    exact hleft.symm

/-- The size of a region is taken off for a smaller object. -/
theorem not_accounted (h : s.Inv) (ho : o ∈ s.objects)
    (htakes : ¬ (ObjectCall.unregister o).TakesRegion s) : ¬ (s.step (.unregister o)).Accounted := by
  intro hacc
  obtain ⟨hg, -⟩ := gcUnregisterObject_bytes h.initialized o.start
  obtain ⟨lists, hlists⟩ := h.lists
  refine htakes fun p hget => ?_
  have hp := created_of_getByAddr hlists hget
  obtain ⟨hleft, hbytes⟩ := h.unregister_bytes ho hp
  have hright : ((gcUnregisterObject s.gc o.start).manager.region p).allocatedBytes =
      total ((gcUnregisterObject s.gc o.start).manager.region p).memory (s.objects.erase o) :=
    hacc.bytes p (hg.created.symm ▸ hp)
  have hle := h.total_le_size p
  have hsize : (s.gc.manager.region p).size = 2097152 := h.size_eq hp
  rw [if_pos hget] at hleft
  rw [hbytes, if_pos hget, hg.memory] at hright
  unfold subW at hright
  rw [wordSize_eq] at hright
  omega

theorem step (h : s.Inv) {c : ObjectCall} (hl : c.Legal s) (hc : c.TakesRegion s) :
    (s.step c).Inv := by
  cases c with
  | register o => exact h.register hl
  | unregister o => exact h.unregister hl hc

end Inv

/-- **Allocated bytes and registered objects**: they agree all along a run exactly when every
object that goes is as large as its region. -/
theorem registered_bytes_iff (g : Gc) (calls : List ObjectCall) (hg : g.NothingAllocated)
    (hlegal : Runs.Each step (fun s c => c.Legal s) ⟨g, []⟩ calls) :
    Runs.Always step Accounted ⟨g, []⟩ calls ↔
      Runs.Each step (fun s c => c.TakesRegion s) ⟨g, []⟩ calls := by
  refine Runs.always_iff_each_of (fun s c h hl hc => h.step hl hc) (fun s h => h.accounted)
    (fun s c h hl hc => ?_) (inv_init hg) hlegal
  cases c with
  | register o => exact absurd trivial hc
  | unregister o => exact h.not_accounted hl hc

/-- A collector with one region, of 2 MiB from `0x200000`. -/
def oneRegion : Gc :=
  { gcInit Gc.zero with
    manager := (gcRegionAlloc gcRegionManagerInit .young ⟨some 0x100, some 0x200000, true, true⟩).1 }

theorem oneRegion_nothingAllocated : oneRegion.NothingAllocated := by
  obtain ⟨hinv, hu⟩ := gcRegionManagerInit_inv
  have hfresh : ∀ p, some 0x100 = some p → p ≠ 0 ∧ p ∉ gcRegionManagerInit.created := by
    intro p hp
    rw [← Option.some.inj hp]
    exact ⟨by decide, by decide⟩
  have hone : ∀ p ∈ oneRegion.manager.created, p = 0x100 := fun p hp => List.mem_singleton.mp hp
  refine ⟨rfl, hinv.alloc hu .young hfresh, ⟨fun p hp => ?_, fun p hp q hq hne => ?_⟩,
    fun p hp => ?_⟩
  · rw [hone p hp]
    decide
  · exact absurd ((hone p hp).trans (hone q hq).symm) hne
  · rw [hone p hp]
    decide

theorem register_legal {o : Range} (h0 : o.start ≠ 0)
    (hin : o.Within (oneRegion.manager.region 0x100).memory) :
    Runs.Each step (fun s c => c.Legal s) ⟨oneRegion, []⟩ [.register o, .unregister o] :=
  ⟨⟨h0, ⟨0x100, List.mem_singleton_self _, hin⟩, fun _ ho => absurd ho List.not_mem_nil⟩,
    List.mem_cons_self, trivial⟩

/-- An object that fills the region comes and goes. -/
theorem registered_bytes_region : Runs.Always step Accounted ⟨oneRegion, []⟩
    [.register ⟨0x200000, 0x200000⟩, .unregister ⟨0x200000, 0x200000⟩] := by
  refine (registered_bytes_iff oneRegion _ oneRegion_nothingAllocated
    (register_legal (by decide) (by decide))).mpr ⟨trivial, fun p hp => ?_, trivial⟩
  have hget : gcRegionGetByAddr (gcRegisterObject oneRegion 0x200000 0x200000).manager 0x200000 =
      some 0x100 := by decide +kernel
  rw [← Option.some.inj (hget.symm.trans hp)]
  decide +kernel

/-- An object of 64 bytes comes and goes: `allocated_bytes` is far below zero. -/
theorem registered_bytes_wrap : ¬ ∀ (g : Gc) (calls : List ObjectCall), g.NothingAllocated →
    Runs.Each step (fun s c => c.Legal s) ⟨g, []⟩ calls →
      Runs.Always step Accounted ⟨g, []⟩ calls := by
  intro hall
  have hrun := hall oneRegion [.register ⟨0x200000, 64⟩, .unregister ⟨0x200000, 64⟩]
    oneRegion_nothingAllocated (register_legal (by decide) (by decide))
  have hbytes := hrun.last.bytes 0x100 (List.mem_singleton_self _)
  exact absurd hbytes (by decide +kernel)

end GcObjects

end

end Nomalloc
