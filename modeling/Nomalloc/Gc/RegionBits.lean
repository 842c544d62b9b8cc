import Nomalloc.Gc.Barrier
import Nomalloc.Gc.RegionLists

/-!
# The bitmaps of a region that is used again

`gc_region_create` clears the two bitmaps of a region.  `gc_region_mark_object` and
`gc_region_set_live` set bits; neither `gc_region_free` nor `gc_region_alloc` clears them, so a region
that comes from `free_regions` has the bits of its last life.

* `gcRegionSetLive`
* `BitSys`            the manager, with the regions whose bits were set;
* `BitSys.Inv`        a region has a bit set exactly when it is one of those;
* `BitOp.Clean`       `gc_region_alloc` returns a region without a bit set;
* `clean_allocs_iff`  it does when no bit was ever set in the first free region.
-/

namespace Nomalloc

/-- `gc_region_set_live` -/
def gcRegionSetLive (m : GcRegionManager) (p ptr : ℕ) : GcRegionManager :=
  if p = 0 ∨ ptr = 0 then m
  else
    let r := m.region p
    m.setRegion p { r with
      liveBitmap := bitmapSet r.liveBitmap (r.bitIdx ptr)
      length_live := (length_bitmapSet _ _).trans r.length_live }

inductive BitOp where
  | alloc (type : GcRegionType) (env : RegionEnv)
  | free (p : ℕ)
  | markObject (p ptr : ℕ)
  | setLive (p ptr : ℕ)

/-- The manager, with the regions on which `gc_region_mark_object` or `gc_region_set_live` was
called. -/
structure BitSys where
  m : GcRegionManager
  touched : List ℕ

namespace BitSys

def init : BitSys := ⟨gcRegionManagerInit, []⟩

def step (s : BitSys) : BitOp → BitSys
  | .alloc type env => { s with m := (gcRegionAlloc s.m type env).1 }
  | .free p => { s with m := gcRegionFree s.m p }
  | .markObject p ptr => ⟨gcRegionMarkObject s.m p ptr, p :: s.touched⟩
  | .setLive p ptr => ⟨gcRegionSetLive s.m p ptr, p :: s.touched⟩

end BitSys

/-- Malloc answers with memory that is not in use, and the addresses are inside the region. -/
def BitOp.Legal (s : BitSys) : BitOp → Prop
  | .alloc _ env => (∀ p, env.addr = some p → p ≠ 0 ∧ p ∉ s.m.created) ∧ env.base ≠ some 0
  | .free p => p = 0 ∨ p ∈ s.m.created
  | .markObject p ptr | .setLive p ptr =>
    p ∈ s.m.created ∧ (s.m.region p).contains ptr = true

/-- What is asked of `gc_region_alloc`: no address of the region is marked or live. -/
def BitOp.Clean (s : BitSys) : BitOp → Prop
  | .alloc type env => ∀ p, (gcRegionAlloc s.m type env).2 = some p →
    ∀ a, ((gcRegionAlloc s.m type env).1.region p).contains a = true →
      gcRegionIsMarked (gcRegionAlloc s.m type env).1 p a = false ∧
        gcRegionIsLive (gcRegionAlloc s.m type env).1 p a = false
  | .free _ | .markObject _ _ | .setLive _ _ => True

/-- No bit was ever set in the first region of `free_regions`, if there is one. -/
def BitOp.FirstUntouched (s : BitSys) : BitOp → Prop
  | .alloc _ _ => ∀ p, s.m.links.next (.head .empty) = some (.region p) → p ∉ s.touched
  | .free _ | .markObject _ _ | .setLive _ _ => True

/-- Some address of the region is marked or live. -/
def GcRegion.Dirty (r : GcRegion) : Prop :=
  ∃ a, r.contains a = true ∧
    (bitmapGet r.markingBitmap (r.bitIdx a) = true ∨ bitmapGet r.liveBitmap (r.bitIdx a) = true)

/-- No bit is set. -/
def GcRegion.BitsClear (r : GcRegion) : Prop :=
  ∀ i, bitmapGet r.markingBitmap i = false ∧ bitmapGet r.liveBitmap i = false

/-- The place and the bits of a region. -/
structure SameBits (r r' : GcRegion) : Prop where
  place : r'.baseAddr = r.baseAddr ∧ r'.size = r.size
  bitmaps : r'.markingBitmap = r.markingBitmap ∧ r'.liveBitmap = r.liveBitmap

/-- The regions whose bits were set have one, and no others have. -/
structure BitSys.Inv (s : BitSys) : Prop where
  lists : ∃ lists, OnTypeLists s.m lists none
  nonNull : 0 ∉ s.m.created
  base : ∀ p ∈ s.m.created, (s.m.region p).baseAddr ≠ 0
  clear : ∀ p ∈ s.m.created, p ∉ s.touched → (s.m.region p).BitsClear
  dirty : ∀ p ∈ s.touched, p ∈ s.m.created ∧ (s.m.region p).Dirty

section
variable {m : GcRegionManager} {lists : GcRegionType → List ℕ} {p ptr : ℕ} {t : GcRegionType}
  {r r' : GcRegion} {s : BitSys} {env : RegionEnv}

theorem SameBits.refl (r : GcRegion) : SameBits r r := ⟨⟨rfl, rfl⟩, rfl, rfl⟩

theorem SameBits.clear (h : SameBits r r') (hr : r.BitsClear) : r'.BitsClear := by
  unfold GcRegion.BitsClear
  rw [h.bitmaps.1, h.bitmaps.2]
  exact hr

theorem SameBits.contains (h : SameBits r r') (a : ℕ) : r'.contains a = r.contains a := by
  unfold GcRegion.contains
  rw [h.place.1, h.place.2]

theorem SameBits.dirty (h : SameBits r r') (hr : r.Dirty) : r'.Dirty := by
  obtain ⟨a, ha, hbit⟩ := hr
  refine ⟨a, (h.contains a).trans ha, ?_⟩
  unfold GcRegion.bitIdx
  rw [h.place.1, h.bitmaps.1, h.bitmaps.2]
  exact hbit

/-! ## the bits -/

theorem update_cases {P : ℕ → GcRegion → Prop} (hr : P p r)
    (hother : ∀ q, q ≠ p → P q (m.region q)) (q : ℕ) : P q (Function.update m.region p r q) := by
  by_cases hq : q = p
  · subst hq
    rwa [Function.update_self]
  · rw [Function.update_of_ne hq]
    exact hother q hq

/-- A store that changes no bit. -/
theorem BitSys.Inv.same {m' : GcRegionManager} (h : s.Inv)
    (hlists : ∃ lists, OnTypeLists m' lists none) (hcreated : m'.created = s.m.created)
    (hregion : m'.region = Function.update s.m.region p r) (hr : SameBits (s.m.region p) r) :
    Inv ⟨m', s.touched⟩ := by
  have hsame : ∀ q, SameBits (s.m.region q) (m'.region q) := fun q => by
    rw [hregion]
    exact update_cases (P := fun q r => SameBits (s.m.region q) r) hr
      (fun q _ => SameBits.refl _) q
  refine ⟨hlists, ?_, fun q hq => ?_, fun q hq hnot => ?_, fun q hq => ?_⟩
  · show 0 ∉ m'.created
    rw [hcreated]
    exact h.nonNull
  · rw [show ((⟨m', s.touched⟩ : BitSys).m.region q).baseAddr = _ from (hsame q).place.1]
    exact h.base q (hcreated ▸ hq)
  · exact (hsame q).clear (h.clear q (hcreated ▸ hq) hnot)
  · obtain ⟨hc, hd⟩ := h.dirty q hq
    exact ⟨hcreated.symm ▸ hc, (hsame q).dirty hd⟩

theorem BitSys.Inv.alloc (h : s.Inv) (hlegal : (BitOp.alloc t env).Legal s) :
    (s.step (.alloc t env)).Inv := by
  obtain ⟨lists, hlists⟩ := h.lists
  have hlists' := hlists.alloc t fun p hp => (hlegal.1 p hp).2
  rcases hlists.alloc_record t env with he | ⟨p, r, -, hregion, -, -, -, hre | hnew⟩
  · have hstep : s.step (.alloc t env) = s := by
      show (⟨(gcRegionAlloc s.m t env).1, s.touched⟩ : BitSys) = s
      rw [he]
    rw [hstep]
    exact h
  · exact h.same hlists' hre.created hregion ⟨hre.place, hre.bitmaps⟩
  · obtain ⟨hp0, hp⟩ := hlegal.1 p hnew.addr
    have hold : ∀ q ∈ s.m.created, (gcRegionAlloc s.m t env).1.region q = s.m.region q :=
      fun q hq => by
        rw [hregion]
        refine Function.update_of_ne ?_ ..
        rintro rfl
        exact hp hq
    have hself : (gcRegionAlloc s.m t env).1.region p = r := by
      rw [hregion]
      exact Function.update_self ..
    have hmem : ∀ q, q ∈ (gcRegionAlloc s.m t env).1.created ↔ q ∈ s.m.created ∨ q = p := by
      intro q
      rw [hnew.created, List.mem_append, List.mem_singleton]
    refine ⟨hlists', fun h0 => ?_, fun q hq => ?_, fun q hq hnot => ?_, fun q hq => ?_⟩
    · rcases (hmem 0).mp h0 with h0 | h0
      · exact h.nonNull h0
      · exact hp0 h0.symm
    · show ((gcRegionAlloc s.m t env).1.region q).baseAddr ≠ 0
      rcases (hmem q).mp hq with hq | rfl
      · rw [hold q hq]
        exact h.base q hq
      · rw [hself]
        exact fun h0 => hlegal.2 (h0 ▸ hnew.place.1)
    · show ((gcRegionAlloc s.m t env).1.region q).BitsClear
      rcases (hmem q).mp hq with hq | rfl
      · rw [hold q hq]
        exact h.clear q hq hnot
      · rw [hself]
        exact hnew.bitmaps
    · obtain ⟨hc, hd⟩ := h.dirty q hq
      refine ⟨(hmem q).mpr (Or.inl hc), ?_⟩
      show ((gcRegionAlloc s.m t env).1.region q).Dirty
      rw [hold q hc]
      exact hd

theorem BitSys.Inv.free (h : s.Inv) (hlegal : (BitOp.free p).Legal s) :
    (s.step (.free p)).Inv := by
  by_cases hp0 : p = 0
  · have hstep : s.step (.free p) = s := by
      show (⟨gcRegionFree s.m p, s.touched⟩ : BitSys) = s
      unfold gcRegionFree
      rw [if_pos hp0]
    rw [hstep]
    exact h
  · obtain ⟨lists, hlists⟩ := h.lists
    obtain ⟨r, hregion, hcreated, -, -, -, hplace, -, hbitmaps⟩ :=
      gcRegionFree_record (m := s.m) hp0
    exact h.same (hlists.free (hlegal.resolve_left hp0) hp0) hcreated hregion ⟨hplace, hbitmaps⟩

theorem ne_zero_of_contains (hbase : r.baseAddr ≠ 0) (h : r.contains ptr = true) : ptr ≠ 0 := by
  have hle := (of_decide_eq_true h).1
  omega

theorem dirty_of_set (hin : r.contains ptr = true)
    (hplace : r'.baseAddr = r.baseAddr ∧ r'.size = r.size)
    (hbit : r'.markingBitmap = bitmapSet r.markingBitmap (r.bitIdx ptr) ∨
      r'.liveBitmap = bitmapSet r.liveBitmap (r.bitIdx ptr)) : r'.Dirty := by
  have hword := div_lt_bitmapSize (bitIdx_lt hin)
  have hidx : r'.bitIdx ptr = r.bitIdx ptr := by
    unfold GcRegion.bitIdx
    rw [hplace.1]
  refine ⟨ptr, ?_, ?_⟩
  · unfold GcRegion.contains at hin ⊢
    rw [hplace.1, hplace.2]
    exact hin
  · rw [hidx]
    rcases hbit with hbit | hbit
    · rw [← r.length_marking] at hword
      rw [hbit, bitmapGet_set _ _ _ hword, decide_eq_true rfl, Bool.true_or]
      exact Or.inl rfl
    · rw [← r.length_live] at hword
      rw [hbit, bitmapGet_set _ _ _ hword, decide_eq_true rfl, Bool.true_or]
      exact Or.inr rfl

/-- One of the two calls that set a bit. -/
theorem BitSys.Inv.touch (h : s.Inv) (hp : p ∈ s.m.created)
    (hin : (s.m.region p).contains ptr = true) (htype : r.type = (s.m.region p).type)
    (hplace : r.baseAddr = (s.m.region p).baseAddr ∧ r.size = (s.m.region p).size)
    (hbit : r.markingBitmap = bitmapSet (s.m.region p).markingBitmap ((s.m.region p).bitIdx ptr) ∨
      r.liveBitmap = bitmapSet (s.m.region p).liveBitmap ((s.m.region p).bitIdx ptr)) :
    Inv ⟨s.m.setRegion p r, p :: s.touched⟩ := by
  obtain ⟨lists, hlists⟩ := h.lists
  refine ⟨⟨lists, hlists.setRegion (Or.inr htype)⟩, h.nonNull, fun q hq => ?_,
    fun q hq hnot => ?_, fun q hq => ?_⟩
  · refine update_cases (m := s.m) (P := fun q r => q ∈ s.m.created → r.baseAddr ≠ 0)
      (fun _ => ?_) (fun q _ hq => h.base q hq) q hq
    rw [hplace.1]
    exact h.base p hp
  · obtain ⟨hqp, hqt⟩ := not_or.mp (mt List.mem_cons.mpr hnot)
    rw [show (⟨s.m.setRegion p r, p :: s.touched⟩ : BitSys).m.region q = s.m.region q from
      Function.update_of_ne hqp ..]
    exact h.clear q hq hqt
  · have hcases : q ∈ s.m.created ∧ (q = p ∨ (s.m.region q).Dirty) := by
      rcases List.mem_cons.mp hq with rfl | hq
      · exact ⟨hp, Or.inl rfl⟩
      · exact ⟨(h.dirty q hq).1, Or.inr (h.dirty q hq).2⟩
    refine ⟨hcases.1, update_cases (m := s.m)
      (P := fun q r => (q = p ∨ (s.m.region q).Dirty) → r.Dirty) (fun _ => ?_)
      (fun q hne hd => hd.resolve_left hne) q hcases.2⟩
    exact dirty_of_set hin hplace hbit

theorem BitSys.Inv.markObject (h : s.Inv) (hlegal : (BitOp.markObject p ptr).Legal s) :
    (s.step (.markObject p ptr)).Inv := by
  have hnull : ¬ (p = 0 ∨ ptr = 0) := not_or.mpr
    ⟨fun he => h.nonNull (he ▸ hlegal.1), ne_zero_of_contains (h.base p hlegal.1) hlegal.2⟩
  unfold BitSys.step gcRegionMarkObject
  dsimp only
  rw [if_neg hnull]
  exact h.touch hlegal.1 hlegal.2 rfl ⟨rfl, rfl⟩ (Or.inl rfl)

theorem BitSys.Inv.setLive (h : s.Inv) (hlegal : (BitOp.setLive p ptr).Legal s) :
    (s.step (.setLive p ptr)).Inv := by
  have hnull : ¬ (p = 0 ∨ ptr = 0) := not_or.mpr
    ⟨fun he => h.nonNull (he ▸ hlegal.1), ne_zero_of_contains (h.base p hlegal.1) hlegal.2⟩
  unfold BitSys.step gcRegionSetLive
  dsimp only
  rw [if_neg hnull]
  exact h.touch hlegal.1 hlegal.2 rfl ⟨rfl, rfl⟩ (Or.inr rfl)

theorem BitSys.Inv.step (h : s.Inv) (op : BitOp) (hlegal : op.Legal s) : (s.step op).Inv := by
  cases op with
  | alloc t env => exact h.alloc hlegal
  | free p => exact h.free hlegal
  | markObject p ptr => exact h.markObject hlegal
  | setLive p ptr => exact h.setLive hlegal

/-! ## what `gc_region_alloc` returns -/

/-- The first free region, if there is one. -/
theorem OnTypeLists.alloc_first (h : OnTypeLists m lists none) (t : GcRegionType)
    (env : RegionEnv) :
    (∃ p, p ∈ lists .empty ∧ m.links.next (.head .empty) = some (.region p) ∧
      (gcRegionAlloc m t env).2 = some p) ∨
    lists .empty = [] ∧ m.links.next (.head .empty) = some (.head .empty) := by
  have hnext := (h.circ.circ .empty).head_next
  rcases h.alloc_cases t env with ⟨p, ps, hl, he⟩ | ⟨hnil, -⟩ | ⟨hnil, -⟩
  · rw [hl] at hnext
    exact Or.inl ⟨p, hl ▸ List.mem_cons_self, hnext, by rw [he]⟩
  · rw [hnil] at hnext
    exact Or.inr ⟨hnil, hnext⟩
  · rw [hnil] at hnext
    exact Or.inr ⟨hnil, hnext⟩

theorem not_marked_of_clear (h : (m.region p).BitsClear) (a : ℕ) :
    gcRegionIsMarked m p a = false ∧ gcRegionIsLive m p a = false := by
  unfold gcRegionIsMarked gcRegionIsLive
  split_ifs
  · exact ⟨rfl, rfl⟩
  · exact h _

theorem dirty_marked (h : (m.region p).Dirty) (hp : p ≠ 0) (hbase : (m.region p).baseAddr ≠ 0) :
    ∃ a, (m.region p).contains a = true ∧
      (gcRegionIsMarked m p a = true ∨ gcRegionIsLive m p a = true) := by
  obtain ⟨a, hin, hbit⟩ := h
  refine ⟨a, hin, ?_⟩
  unfold gcRegionIsMarked gcRegionIsLive
  rw [if_neg (not_or.mpr ⟨hp, ne_zero_of_contains hbase hin⟩),
    if_neg (not_or.mpr ⟨hp, ne_zero_of_contains hbase hin⟩)]
  exact hbit

/-- **A call of `gc_region_alloc`** returns a clean region exactly when no bit was ever set in the
first free region. -/
theorem BitSys.Inv.clean_iff (h : s.Inv) (op : BitOp) (hlegal : op.Legal s) :
    op.Clean s ↔ op.FirstUntouched s := by
  cases op with
  | free p => exact Iff.rfl
  | markObject p ptr => exact Iff.rfl
  | setLive p ptr => exact Iff.rfl
  | alloc t env =>
    obtain ⟨lists, hlists⟩ := h.lists
    have hrecord := hlists.alloc_record t env
    rcases hlists.alloc_first t env with ⟨p, hin, hnext, hp⟩ | ⟨hnil, hnext⟩
    · -- the region is used again, with the bits it has
      obtain ⟨hcreated, -⟩ := (hlists.mem .empty p).mp hin
      have hp0 : p ≠ 0 := fun he => h.nonNull (he ▸ hcreated)
      have hbits : SameBits (s.m.region p) ((gcRegionAlloc s.m t env).1.region p) := by
        rcases hrecord with he | ⟨q, r, hq, hregion, -, -, -, hre | hnew⟩
        · rw [he] at hp
          exact absurd hp (by simp)
        · obtain rfl : q = p := Option.some.inj (hq.symm.trans hp)
          rw [hregion, Function.update_self]
          exact ⟨hre.place, hre.bitmaps⟩
        · obtain rfl : q = p := Option.some.inj (hq.symm.trans hp)
          exact absurd hcreated (hlegal.1 q hnew.addr).2
      constructor
      · intro hclean q hq htouched
        obtain rfl : p = q := GcNode.region.inj (Option.some.inj (hnext.symm.trans hq))
        obtain ⟨a, ha, hbit⟩ := dirty_marked (hbits.dirty (h.dirty p htouched).2) hp0
          (hbits.place.1.symm ▸ h.base p hcreated)
        obtain ⟨hmarked, hlive⟩ := hclean p hp a ha
        rcases hbit with hbit | hbit
        · exact absurd (hmarked.symm.trans hbit) Bool.false_ne_true
        · exact absurd (hlive.symm.trans hbit) Bool.false_ne_true
      · intro huntouched q hq a _
        obtain rfl : p = q := Option.some.inj (hp.symm.trans hq)
        exact not_marked_of_clear (hbits.clear (h.clear p hcreated (huntouched p hnext))) a
    · -- there is none: the region is new
      refine ⟨fun _ q hq => ?_, fun _ q hq a _ => ?_⟩
      · exact absurd (hnext.symm.trans hq) (by simp)
      · rcases hrecord with he | ⟨p, r, hp, hregion, -, -, -, hre | hnew⟩
        · rw [he] at hq
          exact absurd hq (by simp)
        · have hin := (hlists.mem .empty p).mpr ⟨hre.free.1, hre.free.2, by simp⟩
          rw [hnil] at hin
          exact absurd hin List.not_mem_nil
        · obtain rfl : p = q := Option.some.inj (hp.symm.trans hq)
          refine not_marked_of_clear ?_ a
          rw [hregion, Function.update_self]
          exact hnew.bitmaps

theorem BitSys.inv_init : BitSys.init.Inv := by
  refine ⟨⟨_, gcRegionManagerInit_inv.1.typeLists.toOnTypeLists⟩, List.not_mem_nil,
    fun p hp => absurd hp List.not_mem_nil, fun p hp => absurd hp List.not_mem_nil,
    fun p hp => absurd hp List.not_mem_nil⟩

end

/-- **Every region that `gc_region_alloc` returns is clean**, in a run, exactly when each time no bit
was ever set in the first free region. -/
theorem clean_allocs_iff (ops : List BitOp)
    (hlegal : Runs.Each BitSys.step BitOp.Legal BitSys.init ops) :
    Runs.Each BitSys.step BitOp.Clean BitSys.init ops ↔
      Runs.Each BitSys.step BitOp.FirstUntouched BitSys.init ops :=
  Runs.each_iff_each_of (fun s op (h : s.Inv) hl => h.step op hl)
    (fun _ op h hl => h.clean_iff op hl) BitSys.inv_init hlegal

/-- A region is created, an object marked in it if `marked`, and the region freed and used again. -/
def usedAgain (marked : Bool) : List BitOp :=
  .alloc .young ⟨some 100, some 0x200000, true, true⟩ ::
    (if marked then [.markObject 100 0x200010] else []) ++
      [.free 100, .alloc .young ⟨none, none, true, true⟩]

theorem usedAgain_legal (marked : Bool) :
    Runs.Each BitSys.step BitOp.Legal BitSys.init (usedAgain marked) := by
  have halloc : ∀ s : BitSys,
      (BitOp.alloc .young ⟨none, none, true, true⟩).Legal s := fun s =>
    ⟨fun p hp => absurd hp (by simp), by simp⟩
  have hfirst : (BitOp.alloc .young ⟨some 100, some 0x200000, true, true⟩).Legal BitSys.init := by
    refine ⟨fun p hp => ?_, by decide⟩
    cases hp
    exact ⟨by decide, List.not_mem_nil⟩
  cases marked with
  | false => exact ⟨hfirst, Or.inr (by decide), halloc _, trivial⟩
  | true => exact ⟨hfirst, ⟨by decide, by decide⟩, Or.inr (by decide), halloc _, trivial⟩

theorem clean_allocs_unmarked :
    Runs.Each BitSys.step BitOp.Clean BitSys.init (usedAgain false) ↔
      Runs.Each BitSys.step BitOp.FirstUntouched BitSys.init (usedAgain false) :=
  clean_allocs_iff (usedAgain false) (usedAgain_legal false)

/-- The object is still marked when the region is used again. -/
theorem mark_survives_free :
    Runs.Each BitSys.step BitOp.Legal BitSys.init (usedAgain true) ∧
      ¬ Runs.Each BitSys.step BitOp.Clean BitSys.init (usedAgain true) := by
  refine ⟨usedAgain_legal true, fun hclean => ?_⟩
  have hlast := hclean.2.2.2.1 100 (by decide +kernel) 0x200010 (by decide +kernel)
  exact absurd hlast.1 (by decide +kernel)

end Nomalloc
