import Nomalloc.Gc.RegionLists

/-!
# `gc_region_promote`

The region is taken off its list before its type is looked at.  A young region goes on to the
survivors and a survivor to the old regions; for every other type the switch has no branch, and the
region is put on no list.

* `KeepsPlaces m m' lists lists' p`   `p` is on the list of its type, and the others where they were;
* `PromoteKeeps m lists p`            that `gc_region_promote` keeps them so;
* `promote_keeps_iff`                 it does for young regions and survivors, and for no other.
-/

namespace Nomalloc

/-- From `m` to `m'`, the region `p` may move: it is on the list its type names, and on no other;
every other region is where it was. -/
structure KeepsPlaces (m m' : GcRegionManager) (lists lists' : GcRegionType → List ℕ) (p : ℕ) :
    Prop where
  onTypes : TypeLists m' lists' none
  placed : ∀ t, p ∈ lists' t ↔ (m'.region p).type = t
  others : ∀ t, (lists' t).filter (· ≠ p) = (lists t).filter (· ≠ p)
  records : ∀ q, q ≠ p → m'.region q = m.region q

/-- What is asked of `gc_region_promote`. -/
def PromoteKeeps (m : GcRegionManager) (lists : GcRegionType → List ℕ) (p : ℕ) : Prop :=
  ∃ lists', KeepsPlaces m (gcRegionPromote m p) lists lists' p

section
variable {m m' : GcRegionManager} {lists lists' : GcRegionType → List ℕ} {p : ℕ}
  {t : GcRegionType}

theorem TypeLists.unique {l : Links GcNode}
    (h : CircLists l GcNode.head fun t => (lists t).map GcNode.region)
    (h' : CircLists l GcNode.head fun t => (lists' t).map GcNode.region) (t : GcRegionType) :
    lists t = lists' t :=
  List.map_injective_iff.mpr region_injective ((h.circ t).unique (h'.circ t))

/-- Taking the region off a list, or putting it there, leaves the others on that list. -/
theorem filter_erase_append {l : List ℕ} (hl : l.Nodup) (p : ℕ) :
    (l.erase p).filter (· ≠ p) = l.filter (· ≠ p) ∧
      (l ++ [p]).filter (· ≠ p) = l.filter (· ≠ p) := by
  constructor
  · rw [hl.erase_eq_filter, List.filter_filter]
    refine List.filter_congr fun q _ => ?_
    by_cases hq : q = p <;> simp [hq]
  · rw [List.filter_append]
    simp

/-- The two branches of `gc_region_promote` that put the region on another list. -/
theorem TypeLists.move (h : TypeLists m lists none) (hp : p ∈ m.created)
    {source target : GcRegionType} (ht : (m.region p).type = source) (hne : source ≠ target)
    {r : GcRegion} (hr : r.type = target) :
    ∃ lists', KeepsPlaces m (((m.unlist p source).setRegion p r).enlist p target) lists lists' p := by
  have hread : Function.update m.region p r p = r := Function.update_self ..
  have hset := (h.unlist hp ht).setRegion (r := r) (Or.inl rfl)
  have hfinal := hset.enlist hp ((congrArg GcRegion.type hread).trans hr)
  refine ⟨_, hfinal, fun t => ?_, fun t => ?_, fun q hq => Function.update_of_ne hq ..⟩
  · rw [hfinal.mem]
    exact ⟨fun hl => hl.2.1, fun hl => ⟨hp, hl, by simp⟩⟩
  · have hfilter := filter_erase_append (h.list_nodup t) p
    by_cases htarget : t = target
    · subst htarget
      rw [Function.update_self, Function.update_of_ne (Ne.symm hne)]
      exact hfilter.2
    · rw [Function.update_of_ne htarget]
      by_cases hsource : t = source
      · subst hsource
        rw [Function.update_self]
        exact hfilter.1
      · rw [Function.update_of_ne hsource]

/-- **A region is lost** when the switch has no branch for its type. -/
theorem TypeLists.lost (h : TypeLists m lists none) (hp : p ∈ m.created)
    (hm : m' = { m with links := listDel m.links (.region p) }) :
    ¬ TypeLists m' lists' none := by
  subst hm
  intro h'
  have hin : p ∈ lists (m.region p).type := (h.mem _ p).mpr ⟨hp, rfl, by simp⟩
  have hcirc := h.circ.del (mem_map_region.mpr hin)
  rw [← List.map_erase region_injective, ← map_update] at hcirc
  have herase := TypeLists.unique hcirc h'.circ (m.region p).type
  rw [Function.update_self] at herase
  have hin' : p ∈ lists' (m.region p).type := (h'.mem _ p).mpr ⟨hp, rfl, by simp⟩
  rw [← herase] at hin'
  exact ((h.list_nodup _).mem_erase_iff.mp hin').1 rfl

end

/-- **`gc_region_promote`** keeps the lists, the counters and the other regions exactly when the
region is young or a survivor. -/
theorem promote_keeps_iff (m : GcRegionManager) (lists : GcRegionType → List ℕ) (p : ℕ)
    (h : TypeLists m lists none) (hp : p ∈ m.created)
    (hused : (m.region p).type ≠ .empty) :
    PromoteKeeps m lists p ↔ (m.region p).type = .young ∨ (m.region p).type = .survivor := by
  have hp0 : p ≠ 0 := fun he => h.nonNull (he ▸ hp)
  unfold PromoteKeeps gcRegionPromote
  rw [if_neg hp0]
  dsimp only
  cases ht : (m.region p).type with
  | empty => exact absurd ht hused
  | young => exact ⟨fun _ => Or.inl rfl, fun _ => h.move hp ht (by decide) rfl⟩
  | survivor => exact ⟨fun _ => Or.inr rfl, fun _ => h.move hp ht (by decide) rfl⟩
  | old | humongous | pinned =>
    constructor
    · rintro ⟨lists', hkeeps⟩
      exact absurd hkeeps.onTypes (h.lost hp rfl)
    · rintro (h1 | h1) <;> exact absurd h1 (by decide)

/-- A region of the given type is created. -/
def oneRegion (t : GcRegionType) : GcRegionManager :=
  Runs.after GcRegionManager.step gcRegionManagerInit
    [.alloc t ⟨some 100, some 0x200000, true, true⟩]

theorem oneRegion_lists (t : GcRegionType) (ht : t ≠ .empty) :
    ∃ lists, TypeLists (oneRegion t) lists none := by
  obtain ⟨lists, hinv, -⟩ := Runs.inv_after region_inv_step ⟨_, gcRegionManagerInit_inv⟩
    (show Runs.Each GcRegionManager.step GcRegionOp.Legal gcRegionManagerInit
      [.alloc t ⟨some 100, some 0x200000, true, true⟩] from
        ⟨⟨ht, fun p hp => by cases hp; exact ⟨by decide, by decide⟩⟩, trivial⟩)
  exact ⟨lists, hinv.typeLists⟩

theorem promote_keeps_young :
    ∃ lists, TypeLists (oneRegion .young) lists none ∧
      (PromoteKeeps (oneRegion .young) lists 100 ↔
        ((oneRegion .young).region 100).type = .young ∨
          ((oneRegion .young).region 100).type = .survivor) := by
  obtain ⟨lists, h⟩ := oneRegion_lists .young (by decide)
  exact ⟨lists, h, promote_keeps_iff (oneRegion .young) lists 100 h (by decide) (by decide)⟩

/-- An old region that is promoted is on no list any more. -/
theorem promoted_old_lost :
    ∃ lists, TypeLists (oneRegion .old) lists none ∧ 100 ∈ (oneRegion .old).created ∧
      ((oneRegion .old).region 100).type ≠ .empty ∧
      ¬ PromoteKeeps (oneRegion .old) lists 100 := by
  obtain ⟨lists, h⟩ := oneRegion_lists .old (by decide)
  refine ⟨lists, h, by decide, by decide, ?_⟩
  rintro ⟨lists', hkeeps⟩
  have hrun : gcRegionPromote (oneRegion .old) 100 =
      { oneRegion .old with links := listDel (oneRegion .old).links (.region 100) } := rfl
  exact h.lost (by decide) hrun hkeeps.onTypes

end Nomalloc
