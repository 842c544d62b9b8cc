import Nomalloc.Gc.Collect
import Nomalloc.Gc.RegionLists

/-!
# The loops over the young regions

`gc_collect_young` and `gc_collect_mixed` mark and age each young region in one loop,
`gc_collect_full` marks first and ages in a second loop.  Marking changes no list, so a loop that
only marks visits the list it was given.  Ageing may promote the region the loop is at; the region
then is the last of `survivor_regions`, its successor is the head of that list, and the loop goes on
from there without ever meeting the head of `young_regions`.

* `MarkedFrom m m'`        what marking leaves unchanged;
* `gcMarkAllRegions_spec`  the marking loops come to their end;
* `VisitsOnce`             a loop comes to its end and visits each region of a list once;
* `loops_visit_iff`        the loops do exactly when no young region is old enough to be promoted.
-/

namespace Nomalloc

/-- The age that `gc_region_age` gives a region. -/
def GcRegion.nextAge (r : GcRegion) : ℕ := (r.age + 1) % 2 ^ 32

/-- The type that `gc_region_age` gives a region. -/
def GcRegion.agedType (r : GcRegion) : GcRegionType :=
  if r.type = .young ∧ 1 < r.nextAge then .survivor
  else if r.type = .survivor ∧ 15 < r.nextAge then .old
  else r.type

/-- The loop comes to its end, and visits the regions `ps`, each once, and no other node. -/
def VisitsOnce (loop : ℕ → Gc → Option (List GcNode × Gc)) (g : Gc) (ps : List ℕ) : Prop :=
  ∃ rounds visited g', loop rounds g = some (visited, g') ∧ visited.Nodup ∧
    ∀ n, n ∈ visited ↔ ∃ p ∈ ps, n = .region p

/-- The loops of the three collectors over the young regions `ps`. -/
structure LoopsVisitOnce (g : Gc) (ps : List ℕ) : Prop where
  /-- `gc_collect_young`, `gc_collect_mixed` -/
  markAge : VisitsOnce gcMarkAgeYoung g ps
  /-- `gc_mark_all_regions`, for `gc_collect_full` -/
  mark : VisitsOnce (gcForEachRegion .young gcMarkRegion) g ps
  /-- `gc_collect_full`, after `gc_mark_all_regions` -/
  age : ∃ rounds g', gcMarkAllRegions rounds g = some g' ∧ VisitsOnce gcAgeYoung g' ps

/-! ## marking -/

/-- `m'` is `m` with some regions marked. -/
structure MarkedFrom (m m' : GcRegionManager) : Prop where
  same : m' = { m with region := m'.region }
  region : ∀ q, m'.region q = m.region q ∨
    ((m.region q).type ≠ .empty ∧ m'.region q = (m.region q).marked)

section
variable {g g' : Gc} {m m' m'' : GcRegionManager} {lists : GcRegionType → List ℕ} {p q : ℕ}
  {t : GcRegionType}

namespace MarkedFrom

theorem refl (m : GcRegionManager) : MarkedFrom m m := ⟨rfl, fun _ => Or.inl rfl⟩

theorem trans (h : MarkedFrom m m') (h' : MarkedFrom m' m'') : MarkedFrom m m'' := by
  refine ⟨?_, fun q => ?_⟩
  · rw [h'.same, h.same]
  · rcases h.region q with h1 | ⟨ht, h1⟩ <;> rcases h'.region q with h2 | ⟨ht', h2⟩
    · exact Or.inl (h2.trans h1)
    · rw [h1] at ht' h2
      exact Or.inr ⟨ht', h2⟩
    · exact Or.inr ⟨ht, h2.trans h1⟩
    · rw [h1] at h2
      exact Or.inr ⟨ht, h2⟩

theorem links (h : MarkedFrom m m') : m'.links = m.links := by rw [h.same]

theorem fields (h : MarkedFrom m m') (q : ℕ) :
    (m'.region q).type = (m.region q).type ∧ (m'.region q).age = (m.region q).age ∧
      (m'.region q).id = (m.region q).id ∧ (m'.region q).size = (m.region q).size := by
  rcases h.region q with h1 | ⟨-, h1⟩
  · rw [h1]
    exact ⟨rfl, rfl, rfl, rfl⟩
  · rw [h1]
    exact ⟨rfl, rfl, rfl, rfl⟩

end MarkedFrom

theorem gcMarkRegion_spec (g : Gc) (p : ℕ) : MarkedFrom g.manager (gcMarkRegion g p).manager := by
  unfold gcMarkRegion
  split_ifs with h
  · exact MarkedFrom.refl _
  · refine ⟨rfl, fun q => ?_⟩
    by_cases hq : q = p
    · subst hq
      exact Or.inr ⟨fun ht => h (Or.inr ht), Function.update_self ..⟩
    · exact Or.inl (Function.update_of_ne hq ..)

theorem gcMarkRegion_other (hq : q ≠ p) :
    (gcMarkRegion g p).manager.region q = g.manager.region q := by
  rw [gcMarkRegion_region, if_neg fun hc => hq hc.1]

/-- The body of a loop as a function of nodes; the heads are never worked on. -/
def onNode (body : Gc → ℕ → Gc) (g : Gc) : GcNode → Gc
  | .region p => body g p
  | .head _ => g

theorem GcRegionManager.Consistent.path (h : m.Consistent lists) (t : GcRegionType) :
    LinkPath m.links.next (m.links.next (.head t)) ((lists t).map .region) (.head t) ∧
      GcNode.head t ∉ (lists t).map .region ∧ ((lists t).map GcNode.region).Nodup := by
  obtain ⟨h1, h2⟩ := List.nodup_cons.mp (h.onLists t).nodup
  exact ⟨(h.onLists t).next, h1, h2⟩

/-- A region that is marked stays so. -/
theorem MarkedFrom.marked (h : MarkedFrom m m') (hq : m.region q = (m''.region q).marked) :
    m'.region q = (m''.region q).marked := by
  rcases h.region q with h1 | ⟨-, h1⟩
  · rw [h1, hq]
  · rw [h1, hq]
    rfl

theorem foldl_gcMarkRegion (ps : List ℕ) (g : Gc) :
    MarkedFrom g.manager (ps.foldl gcMarkRegion g).manager ∧
      ∀ p ∈ ps, p ≠ 0 → (g.manager.region p).type ≠ .empty →
        (ps.foldl gcMarkRegion g).manager.region p = (g.manager.region p).marked := by
  induction ps generalizing g with
  | nil => exact ⟨MarkedFrom.refl _, fun p hp => absurd hp (by simp)⟩
  | cons q ps ih =>
    have hspec := gcMarkRegion_spec g q
    obtain ⟨h1, h2⟩ := ih (gcMarkRegion g q)
    refine ⟨hspec.trans h1, fun p hp hp0 ht => ?_⟩
    rcases List.mem_cons.mp hp with rfl | hp
    · refine h1.marked ?_
      rw [gcMarkRegion_region, if_pos ⟨rfl, hp0, ht⟩]
    · rw [List.foldl_cons, h2 p hp hp0 ((hspec.fields p).1 ▸ ht)]
      rcases hspec.region p with h3 | ⟨-, h3⟩
      · rw [h3]
      · rw [h3]
        rfl

/-- **A marking loop** comes to its end and visits its list. -/
theorem gcMark_loop (h : m.Consistent lists) (hg : m.links = g.manager.links) (t : GcRegionType)
    {rounds : ℕ} (hr : (lists t).length < rounds) :
    gcForEachRegion t gcMarkRegion rounds g =
      some ((lists t).map .region, (lists t).foldl gcMarkRegion g) := by
  obtain ⟨hp, hh, -⟩ := h.path t
  rw [hg] at hp
  have hrule := forEach_path (fun g : Gc => g.manager.links) (onRegion gcMarkRegion)
    (onNode gcMarkRegion) (fun ns _ => ∀ n ∈ ns, ∃ p, n = .region p) ?_ hp hh ?_
      (rounds - ((lists t).length + 1))
  · rw [List.length_map, show (lists t).length + 1 + (rounds - ((lists t).length + 1)) = rounds by
      omega, List.foldl_map] at hrule
    exact hrule.1
  · intro n ns g hn
    obtain ⟨p, rfl⟩ := hn n List.mem_cons_self
    exact ⟨rfl, congrArg Links.next (gcMarkRegion_spec g p).links,
      fun n' hn' => hn n' (List.mem_cons_of_mem _ hn')⟩
  · intro n hn
    obtain ⟨p, -, rfl⟩ := List.mem_map.mp hn
    exact ⟨p, rfl⟩

/-- The regions that `gc_mark_all_regions` marks. -/
def markedRegions (lists : GcRegionType → List ℕ) : List ℕ :=
  lists .young ++ lists .survivor ++ lists .old

/-- **`gc_mark_all_regions`** comes to its end. -/
theorem gcMarkAllRegions_spec (h : g.manager.Consistent lists) {rounds : ℕ}
    (hr : ∀ t, (lists t).length < rounds) :
    gcMarkAllRegions rounds g = some ((markedRegions lists).foldl gcMarkRegion g) := by
  have h1 := foldl_gcMarkRegion (lists .young) g
  have h2 := foldl_gcMarkRegion (lists .survivor) ((lists .young).foldl gcMarkRegion g)
  unfold gcMarkAllRegions markedRegions
  rw [gcMark_loop h rfl .young (hr _), Option.bind_some,
    gcMark_loop h h1.1.links.symm .survivor (hr _), Option.bind_some,
    gcMark_loop h (h1.1.trans h2.1).links.symm .old (hr _), Option.map_some, List.foldl_append,
    List.foldl_append]

/-! ## ageing -/

/-- The body of a loop that ages young regions, with what it does to the lists. -/
structure AgesYoung (body : Gc → ℕ → Gc) : Prop where
  other : ∀ g p q, q ≠ p → (body g p).manager.region q = g.manager.region q
  stays : ∀ g p, p ≠ 0 → (g.manager.region p).type = .young →
    (g.manager.region p).nextAge ≤ 1 → (body g p).manager.links = g.manager.links
  leaves : ∀ g p, p ≠ 0 → (g.manager.region p).type = .young →
    1 < (g.manager.region p).nextAge →
      (body g p).manager.links.next (.region p) = some (.head .survivor)

/-- The last node of a list leads to its head. -/
theorem listAddTail_next_self {ν : Type*} [DecidableEq ν] (l : Links ν) (x head : ν) :
    (listAddTail l x head).next x = some head := by
  unfold listAddTail Links.storeNext Links.storePrev
  cases l.prev head <;> simp

theorem gcRegionAge_record (hp : p ≠ 0) : ∃ r : GcRegion,
    (gcRegionAge m p).region = Function.update m.region p r ∧
      (gcRegionAge m p).created = m.created ∧
      r.type = (m.region p).agedType ∧ r.age = (m.region p).nextAge := by
  obtain ⟨r, hr⟩ : ∃ r : GcRegion,
      r = { m.region p with age := ((m.region p).age + 1) % 2 ^ 32 } := ⟨_, rfl⟩
  have hread : (m.setRegion p r).region p = r := Function.update_self ..
  have htype : r.type = (m.region p).type := by rw [hr]
  have hage : r.age = (m.region p).nextAge := by rw [hr]; rfl
  have hagain : ∀ r', Function.update (m.setRegion p r).region p r' =
      Function.update m.region p r' := fun r' => Function.update_idem ..
  unfold gcRegionAge
  rw [if_neg hp]
  dsimp only
  rw [← hr]
  unfold gcRegionPromote GcRegion.agedType
  rw [if_neg hp]
  dsimp only
  rw [hread, htype, show ((m.region p).age + 1) % 2 ^ 32 = (m.region p).nextAge from rfl]
  split_ifs with h1 h2
  · rw [h1.1]
    exact ⟨_, hagain _, rfl, rfl, hage⟩
  · rw [h2.1]
    exact ⟨_, hagain _, rfl, rfl, hage⟩
  · exact ⟨r, rfl, rfl, htype, hage⟩

theorem gcRegionAge_other (hq : q ≠ p) : (gcRegionAge m p).region q = m.region q := by
  by_cases hp : p = 0
  · exact congrArg (GcRegionManager.region · q) (if_pos hp)
  · obtain ⟨r, hregion, -⟩ := gcRegionAge_record (m := m) hp
    rw [hregion]
    exact Function.update_of_ne hq ..

/-- A young region that is not promoted has a year more, and that is all. -/
theorem gcRegionAge_young (hp : p ≠ 0) (ht : (m.region p).type = .young)
    (hage : (m.region p).nextAge ≤ 1) :
    gcRegionAge m p = m.setRegion p { m.region p with
      age := ((m.region p).age + 1) % 2 ^ 32 } := by
  unfold GcRegion.nextAge at hage
  unfold gcRegionAge
  rw [if_neg hp]
  dsimp only
  rw [if_neg fun hc => absurd hc.2 (Nat.not_lt.mpr hage), ht,
    if_neg fun hc => absurd hc.1 (by decide)]

theorem gcRegionAge_stays (hp : p ≠ 0) (ht : (m.region p).type = .young)
    (hage : (m.region p).nextAge ≤ 1) : (gcRegionAge m p).links = m.links := by
  rw [gcRegionAge_young hp ht hage]
  rfl

theorem gcRegionAge_leaves (hp : p ≠ 0) (ht : (m.region p).type = .young)
    (hage : 1 < (m.region p).nextAge) :
    (gcRegionAge m p).links.next (.region p) = some (.head .survivor) := by
  have hread : ∀ r, (m.setRegion p r).region p = r := fun r => Function.update_self ..
  unfold GcRegion.nextAge at hage
  unfold gcRegionAge
  rw [if_neg hp]
  dsimp only
  rw [if_pos ⟨ht, hage⟩]
  unfold gcRegionPromote
  rw [if_neg hp, hread]
  dsimp only
  rw [ht]
  exact listAddTail_next_self ..

theorem gcAge_agesYoung : AgesYoung gcAge where
  other _ _ _ hq := gcRegionAge_other hq
  stays _ _ hp ht hage := gcRegionAge_stays hp ht hage
  leaves _ _ hp ht hage := gcRegionAge_leaves hp ht hage

/-- Marking a region before it is aged makes no difference to the lists. -/
theorem markAge_agesYoung : AgesYoung fun g p => gcAge (gcMarkRegion g p) p where
  other _ _ _ hq := (gcRegionAge_other hq).trans (gcMarkRegion_other hq)
  stays g p hp ht hage := by
    have hspec := gcMarkRegion_spec g p
    obtain ⟨h1, h2, -⟩ := hspec.fields p
    refine (gcRegionAge_stays hp (h1.trans ht) ?_).trans hspec.links
    unfold GcRegion.nextAge
    rw [h2]
    exact hage
  leaves g p hp ht hage := by
    obtain ⟨h1, h2, -⟩ := (gcMarkRegion_spec g p).fields p
    refine gcRegionAge_leaves hp (h1.trans ht) ?_
    unfold GcRegion.nextAge
    rw [h2]
    exact hage

/-- What a loop that ages the young regions `ns` finds when it comes to them. -/
def StaysYoung (ns : List GcNode) (g : Gc) : Prop :=
  ns.Nodup ∧ ∀ n ∈ ns, ∃ p, n = .region p ∧ p ≠ 0 ∧ (g.manager.region p).type = .young ∧
    (g.manager.region p).nextAge ≤ 1

theorem StaysYoung.step {body : Gc → ℕ → Gc} (hb : AgesYoung body) {n : GcNode} {ns : List GcNode}
    (h : StaysYoung (n :: ns) g) :
    onRegion body g n = some (onNode body g n) ∧
      (onNode body g n).manager.links.next = g.manager.links.next ∧
      StaysYoung ns (onNode body g n) := by
  obtain ⟨p, rfl, hp, ht, hage⟩ := h.2 n List.mem_cons_self
  obtain ⟨hnot, hnd⟩ := List.nodup_cons.mp h.1
  refine ⟨rfl, congrArg Links.next (hb.stays g p hp ht hage), hnd, fun n' hn' => ?_⟩
  obtain ⟨q, rfl, hq⟩ := h.2 n' (List.mem_cons_of_mem _ hn')
  have hne : q ≠ p := by
    rintro rfl
    exact hnot hn'
  have hsame : (onNode body g (.region p)).manager.region q = g.manager.region q :=
    hb.other g p q hne
  rw [← hsame] at hq
  exact ⟨q, rfl, hq⟩

theorem exists_first {α : Type*} {l : List α} {P : α → Prop} [DecidablePred P] {x : α}
    (hx : x ∈ l) (hP : P x) : ∃ as y bs, l = as ++ y :: bs ∧ P y ∧ ∀ a ∈ as, ¬ P a := by
  obtain ⟨y, hy⟩ : ∃ y, l.find? (fun a => decide (P a)) = some y := by
    cases hf : l.find? fun a => decide (P a) with
    | some y => exact ⟨y, rfl⟩
    | none => exact absurd (decide_eq_true hP) (List.find?_eq_none.mp hf x hx)
  obtain ⟨hPy, as, bs, hl, has⟩ := List.find?_eq_some_iff_append.mp hy
  exact ⟨as, y, bs, hl, of_decide_eq_true hPy, fun a ha hPa => by
    simpa [hPa] using has a ha⟩

/-- The young regions, as a loop that ages them finds them. -/
theorem GcRegionManager.Consistent.young (h : m.Consistent lists) :
    ∀ p ∈ lists .young, p ≠ 0 ∧ (m.region p).type = .young := by
  intro p hin
  obtain ⟨hc, ht⟩ := (h.listed .young p).mp hin
  exact ⟨fun h0 => h.nonNull (h0 ▸ hc), ht⟩

/-- A loop that ages the young regions loses its way at the first one that is promoted. -/
theorem ageLoop_stays {body : Gc → ℕ → Gc} (hb : AgesYoung body) (h : g.manager.Consistent lists)
    {rounds : ℕ} {r : List GcNode × Gc} (hloop : gcForEachRegion .young body rounds g = some r) :
    ∀ p ∈ lists .young, (g.manager.region p).nextAge ≤ 1 := by
  obtain ⟨hp, hh, hnd⟩ := h.path .young
  have hyoung := h.young
  intro p hin
  by_contra hage
  obtain ⟨as, x, bs, hl, hx, has⟩ :=
    exists_first (P := fun q => 1 < (g.manager.region q).nextAge) hin (by omega)
  have hxin : x ∈ lists .young := by
    rw [hl]
    exact List.mem_append_right _ List.mem_cons_self
  rw [hl, List.map_append, List.map_cons] at hp hh hnd
  have hnd' := List.nodup_append.mp hnd
  obtain ⟨hx0, hxt⟩ := hyoung x hxin
  -- up to `x` nothing is promoted, and `x` is as it was
  have hstep : ∀ n ns g', (StaysYoung (n :: ns) g' ∧ GcNode.region x ∉ n :: ns ∧
      g'.manager.region x = g.manager.region x) →
      onRegion body g' n = some (onNode body g' n) ∧
        (onNode body g' n).manager.links.next = g'.manager.links.next ∧
        StaysYoung ns (onNode body g' n) ∧ GcNode.region x ∉ ns ∧
          (onNode body g' n).manager.region x = g.manager.region x := by
    rintro n ns g' ⟨hstays, hnot, hsame⟩
    obtain ⟨h1, h2, h3⟩ := hstays.step hb
    obtain ⟨q, rfl, -⟩ := hstays.2 n List.mem_cons_self
    have hne : x ≠ q := fun he => hnot (he ▸ List.mem_cons_self)
    exact ⟨h1, h2, h3, fun hn => hnot (List.mem_cons_of_mem _ hn),
      (hb.other g' q x hne).trans hsame⟩
  have hstart : StaysYoung (as.map .region) g ∧ GcNode.region x ∉ as.map .region ∧
      g.manager.region x = g.manager.region x := by
    refine ⟨⟨hnd'.1, fun n hn => ?_⟩, fun hn => ?_, rfl⟩
    · obtain ⟨a, ha, rfl⟩ := List.mem_map.mp hn
      obtain ⟨ha0, hat⟩ := hyoung a (by rw [hl]; exact List.mem_append_left _ ha)
      exact ⟨a, rfl, ha0, hat, Nat.not_lt.mp (has a ha)⟩
    · exact hnd'.2.2 _ hn _ List.mem_cons_self rfl
  have hh' : GcNode.head .young ∉ as.map .region := fun hin => hh (List.mem_append_left _ hin)
  have hpath := (linkPath_append.mp hp).1
  obtain ⟨⟨-, -, hsame⟩, -, -⟩ := forEach_upTo (fun g : Gc => g.manager.links) (onRegion body)
    (onNode body) (fun ns g' => StaysYoung ns g' ∧ GcNode.region x ∉ ns ∧
      g'.manager.region x = g.manager.region x) hstep hpath hh' hstart
  have hnone := forEach_lost (fun g : Gc => g.manager.links) (onRegion body) (onNode body)
    (fun ns g' => StaysYoung ns g' ∧ GcNode.region x ∉ ns ∧
      g'.manager.region x = g.manager.region x) hstep hpath hh' hstart (by simp) ?_ rounds
  · exact absurd (hloop.symm.trans hnone) (by simp)
  · -- the successor of `x` is now the head of the survivors
    rintro s' hs'
    cases hs'
    rw [← hsame] at hx hxt
    exact ⟨.head .survivor, hb.leaves _ x hx0 hxt hx, by simp, rfl⟩

/-- It is a fold over them if none is.  `P` is what the body keeps besides. -/
theorem ageLoop_fold {body : Gc → ℕ → Gc} (hb : AgesYoung body) (h : g.manager.Consistent lists)
    (hage : ∀ p ∈ lists .young, (g.manager.region p).nextAge ≤ 1) {P : Gc → Prop}
    (hkeeps : ∀ g p, p ∈ lists .young → p ≠ 0 → (g.manager.region p).type = .young →
      (g.manager.region p).nextAge ≤ 1 → P g → P (body g p)) (hP : P g) {rounds : ℕ}
    (hr : (lists .young).length < rounds) :
    gcForEachRegion .young body rounds g =
        some ((lists .young).map .region, (lists .young).foldl body g) ∧
      P ((lists .young).foldl body g) := by
  obtain ⟨hp, hh, hnd⟩ := h.path .young
  have hstart : StaysYoung ((lists .young).map .region) g := by
    refine ⟨hnd, fun n hn => ?_⟩
    obtain ⟨p, hin, rfl⟩ := List.mem_map.mp hn
    exact ⟨p, rfl, (h.young p hin).1, (h.young p hin).2, hage p hin⟩
  have hrule := forEach_path (fun g : Gc => g.manager.links) (onRegion body) (onNode body)
    (fun ns g => StaysYoung ns g ∧ (∀ n ∈ ns, n ∈ (lists .young).map GcNode.region) ∧ P g)
    ?_ hp hh ⟨hstart, fun _ hn => hn, hP⟩ (rounds - ((lists .young).length + 1))
  · obtain ⟨hloop, ⟨-, -, hend⟩, -⟩ := hrule
    rw [List.length_map, show (lists .young).length + 1 + (rounds - ((lists .young).length + 1)) =
      rounds by omega, List.foldl_map] at hloop
    rw [List.foldl_map] at hend
    exact ⟨hloop, hend⟩
  · rintro n ns g' ⟨hstays, hmem, hPg⟩
    obtain ⟨h1, h2, h3⟩ := hstays.step hb
    refine ⟨h1, h2, h3, fun n' hn' => hmem n' (List.mem_cons_of_mem _ hn'), ?_⟩
    obtain ⟨p, rfl, hp0, ht, hnext⟩ := hstays.2 n List.mem_cons_self
    exact hkeeps g' p (mem_map_region.mp (hmem _ List.mem_cons_self)) hp0 ht hnext hPg

/-- **A loop that ages the young regions** visits them, or it loses its way at the first one that is
promoted. -/
theorem ageLoop_iff {body : Gc → ℕ → Gc} (hb : AgesYoung body)
    (h : g.manager.Consistent lists) :
    VisitsOnce (gcForEachRegion .young body) g (lists .young) ↔
      ∀ p ∈ lists .young, (g.manager.region p).nextAge ≤ 1 := by
  constructor
  · rintro ⟨rounds, visited, g', hloop, -, -⟩
    exact ageLoop_stays hb h hloop
  · intro hage
    have hloop := (ageLoop_fold (P := fun _ => True) hb h hage (fun _ _ _ _ _ _ _ => trivial)
      trivial (Nat.lt_succ_self _)).1
    refine ⟨_, _, _, hloop, (h.path .young).2.2, fun n => ?_⟩
    rw [List.mem_map]
    exact exists_congr fun p => and_congr_right fun _ => eq_comm

theorem exists_rounds (lists : GcRegionType → List ℕ) :
    ∃ rounds, ∀ t, (lists t).length < rounds := by
  refine ⟨(lists .empty).length + (lists .young).length + (lists .survivor).length +
    (lists .old).length + (lists .humongous).length + (lists .pinned).length + 1, fun t => ?_⟩
  cases t <;> omega

/-- A manager keeps its lists when it is marked. -/
theorem GcRegionManager.Consistent.marked (h : m.Consistent lists) (hm : MarkedFrom m m') :
    m'.Consistent lists := by
  have htype : ∀ p, (m'.region p).type = (m.region p).type := fun p => (hm.fields p).1
  have hid : ∀ p, (m'.region p).id = (m.region p).id := fun p => (hm.fields p).2.2.1
  have hsize : ∀ p, (m'.region p).size = (m.region p).size := fun p => (hm.fields p).2.2.2
  rw [hm.same]
  refine ⟨h.onLists, h.noFault, fun t p => ?_, h.counts, h.createdOnce, h.nonNull, fun i hi => ?_,
    h.registered, h.numLe, ?_, ?_⟩
  · rw [h.listed, ← htype]
  · obtain ⟨p, hp, hr, hi'⟩ := h.ids i hi
    exact ⟨p, hp, hr, (hid p).trans hi'⟩
  · show m.totalSize = (m.created.map fun p => (m'.region p).size).sum
    simp only [hsize]
    exact h.total
  · show m.usedSize = ((m.created.filter fun p => (m'.region p).type ≠ .empty).map fun p =>
      (m'.region p).size).sum
    simp only [hsize, htype]
    exact h.used

/-- **The loops over the young regions** of the three collectors come to their end and visit each
region once exactly when no young region is promoted. -/
theorem loops_visit_iff (g : Gc) (lists : GcRegionType → List ℕ)
    (h : g.manager.Consistent lists) :
    LoopsVisitOnce g (lists .young) ↔
      ∀ p ∈ lists .young, ((g.manager.region p).age + 1) % 2 ^ 32 ≤ 1 := by
  constructor
  · intro hl
    exact (ageLoop_iff markAge_agesYoung h).mp hl.markAge
  · intro hage
    obtain ⟨rounds, hr⟩ := exists_rounds lists
    have hmark := gcMarkAllRegions_spec h hr
    have hm := (foldl_gcMarkRegion (markedRegions lists) g).1
    refine ⟨(ageLoop_iff markAge_agesYoung h).mpr hage, ?_, rounds, _, hmark, ?_⟩
    · refine ⟨rounds, _, _, gcMark_loop h rfl .young (hr _), (h.path .young).2.2, fun n => ?_⟩
      rw [List.mem_map]
      exact exists_congr fun p => and_congr_right fun _ => eq_comm
    · refine (ageLoop_iff gcAge_agesYoung (h.marked hm)).mpr fun p hp => ?_
      unfold GcRegion.nextAge
      rw [(hm.fields p).2.1]
      exact hage p hp

end

/-- A young region is created, and aged once if `aged`. -/
def oneYoung (aged : Bool) : List GcRegionOp :=
  .alloc .young ⟨some 100, some 0x200000, true, true⟩ :: if aged then [.age 100] else []

theorem oneYoung_legal (aged : Bool) :
    Runs.Each GcRegionManager.step GcRegionOp.Legal gcRegionManagerInit (oneYoung aged) := by
  refine ⟨⟨by decide, fun p hp => ?_⟩, ?_⟩
  · cases hp
    exact ⟨by decide, by decide⟩
  · cases aged
    · trivial
    · exact ⟨⟨by decide, by decide⟩, trivial⟩

/-- A collector over that region. -/
def gcOneYoung (aged : Bool) : Gc :=
  { gcInit Gc.zero with
    manager := Runs.after GcRegionManager.step gcRegionManagerInit (oneYoung aged) }

theorem loops_visit_one :
    ∃ lists, (gcOneYoung false).manager.Consistent lists ∧ 100 ∈ lists .young ∧
      (LoopsVisitOnce (gcOneYoung false) (lists .young) ↔
        ∀ p ∈ lists .young, (((gcOneYoung false).manager.region p).age + 1) % 2 ^ 32 ≤ 1) := by
  obtain ⟨lists, h⟩ := region_inv_after (oneYoung false) (oneYoung_legal false)
  exact ⟨lists, h, (h.listed _ _).mpr (by decide), loops_visit_iff (gcOneYoung false) lists h⟩

/-- A young region that has been aged once is promoted by the next collection, and the loop is
lost. -/
theorem promotion_loses_loop :
    ∃ lists, (gcOneYoung true).manager.Consistent lists ∧
      ¬ LoopsVisitOnce (gcOneYoung true) (lists .young) := by
  obtain ⟨lists, h⟩ := region_inv_after (oneYoung true) (oneYoung_legal true)
  refine ⟨lists, h, fun hloops => ?_⟩
  have hin : 100 ∈ lists .young := (h.listed _ _).mpr (by decide)
  have hage := (ageLoop_iff (g := gcOneYoung true) markAge_agesYoung h).mp hloops.markAge 100 hin
  exact absurd hage (by decide)

end Nomalloc
