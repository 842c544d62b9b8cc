import Nomalloc.Gc.CollectLoops

/-!
# How a young region grows old

A history of calls on a region that was allocated as young.  Between the calls of `gc_region_age` on
it, other regions are allocated, freed, aged and promoted.

`gc_region_promote` takes a region that is neither young nor a survivor off its list for good, so not
all regions are on the lists: `KeptLists m lists kept` says that the regions `kept` are, and that the
list pointers of the others are NULL.  To promote or free one of these is to follow NULL.

* `RegionCall`            the calls of a history; a call is `Linked` if it is not of that kind;
* `ageType n`             the type of a region that was allocated as young and is `n` years old;
* `KeptLists.step`, `KeptLists.step_fault`   what a call does to the lists, if it is linked and if not;
* `tracked_step`, `tracked_run`   a region's age and type over one call, and over a run;
* `region_ages_iff`       after `n` years the region has the type `ageType n` and is on that list,
                          exactly if all calls were linked.
-/

namespace Nomalloc

/-- The manager, with the regions `kept` as those created. -/
def GcRegionManager.only (m : GcRegionManager) (kept : List ℕ) : GcRegionManager :=
  { m with created := kept }

/-- The regions `kept` are on the lists that their types name; the others are on none, and their list
pointers are NULL. -/
structure KeptLists (m : GcRegionManager) (lists : GcRegionType → List ℕ) (kept : List ℕ) :
    Prop where
  onLists : OnTypeLists (m.only kept) lists none
  created : ∀ q ∈ kept, q ∈ m.created
  unlinked : ∀ q ∈ m.created, q ∉ kept → m.links.prev (.region q) = none
  /-- ageing does not promote the others -/
  settled : ∀ q ∈ m.created, q ∉ kept → (m.region q).type ≠ .young ∧ (m.region q).type ≠ .survivor
  nonNull : 0 ∉ m.created

inductive RegionCall where
  | op (op : GcRegionOp)
  | promote (p : ℕ)

def regionStep (m : GcRegionManager) : RegionCall → GcRegionManager
  | .op op => m.step op
  | .promote p => gcRegionPromote m p

namespace RegionCall

/-- malloc answers with memory that is not in use, and regions are passed that were created, or
NULL. -/
def Legal (m : GcRegionManager) : RegionCall → Prop
  | op (.alloc _ env) => ∀ p, env.addr = some p → p ≠ 0 ∧ p ∉ m.created
  | op (.free p) | op (.age p) | promote p => p = 0 ∨ p ∈ m.created

/-- The region is not freed, and promoted by `gc_region_age` only. -/
def Spares (p : ℕ) : RegionCall → Prop
  | op (.free q) | promote q => q ≠ p
  | op (.alloc _ _) | op (.age _) => True

/-- A region that is promoted or freed is on a list: it has not been promoted before while it was
neither young nor a survivor, after which its list pointers are NULL. -/
def Linked (m : GcRegionManager) : RegionCall → Prop
  | op (.free q) | promote q => q = 0 ∨ m.links.prev (.region q) ≠ none
  | op (.alloc _ _) | op (.age _) => True

/-- The call is `gc_region_age` of the region. -/
def ages (p : ℕ) : RegionCall → Bool
  | op (.age q) => q = p
  | op (.alloc _ _) | op (.free _) | promote _ => false

end RegionCall

/-- The type of a region that was allocated as young and is `n` years old. -/
def ageType (n : ℕ) : GcRegionType :=
  if n ≤ 1 then .young else if n ≤ 15 then .survivor else .old

/-- The region is `n` years old, has the type for that age, and is on the list of that type and on no
other. -/
structure HasAge (m : GcRegionManager) (p n : ℕ) : Prop where
  age : (m.region p).age = n
  type : (m.region p).type = ageType n
  listed : ∃ lists : GcRegionType → List ℕ,
    (∀ t, CircList m.links (.head t) ((lists t).map .region)) ∧ ∀ t, p ∈ lists t ↔ t = ageType n

section
variable {m m' : GcRegionManager} {lists : GcRegionType → List ℕ} {kept : List ℕ} {p q n : ℕ}
  {t : GcRegionType} {r r' : GcRegion} {env : RegionEnv}

/-! ## the lists -/

namespace KeptLists

theorem outside (h : KeptLists m lists kept) (hq : q ∉ kept) (t : GcRegionType) :
    GcNode.region q ∉ GcNode.head t :: (lists t).map GcNode.region :=
  h.onLists.notMem (Or.inl hq) t

theorem mem_list (h : KeptLists m lists kept) (hq : q ∈ kept) : q ∈ lists (m.region q).type :=
  (h.onLists.mem _ q).mpr ⟨hq, rfl, by simp⟩

/-- A region has list pointers as long as it is kept. -/
theorem linked_iff (h : KeptLists m lists kept) (hq : q ∈ m.created) :
    m.links.prev (.region q) ≠ none ↔ q ∈ kept := by
  constructor
  · intro hlinked
    by_contra hqk
    exact hlinked (h.unlinked q hq hqk)
  · intro hqk
    obtain ⟨-, -, p, -, -, hp, -⟩ := (h.onLists.circ.circ _).neighbours
      (mem_map_region.mpr (h.mem_list hqk))
    have hprev : m.links.prev (.region q) = some p := hp
    rw [hprev]
    exact Option.some_ne_none p

theorem kept_of_linked (h : KeptLists m lists kept) (hc : q = 0 ∨ q ∈ m.created)
    (hlinked : q = 0 ∨ m.links.prev (.region q) ≠ none) : q = 0 ∨ q ∈ kept := by
  rcases hc with hq0 | hq
  · exact .inl hq0
  · exact hlinked.imp_right (h.linked_iff hq).mp

theorem setRegion (h : KeptLists m lists kept) (htype : r.type = (m.region q).type) :
    KeptLists (m.setRegion q r) lists kept := by
  refine ⟨h.onLists.setRegion (Or.inr htype), h.created, h.unlinked, fun x hx hxk => ?_, h.nonNull⟩
  have hsame : ((m.setRegion q r).region x).type = (m.region x).type := by
    by_cases hxq : x = q
    · rw [hxq, ← htype]
      exact congrArg GcRegion.type (Function.update_self ..)
    · exact congrArg GcRegion.type (Function.update_of_ne hxq ..)
  rw [hsame]
  exact h.settled x hx hxk

theorem prev_del (h : KeptLists m lists kept) (hq : q ∈ kept) (hp : p ∈ m.created) (hpk : p ∉ kept) :
    (listDel m.links (.region q)).prev (.region p) = none := by
  have hin := mem_map_region.mpr (h.mem_list hq)
  exact (h.onLists.circ.del_prev_outside hin fun t => h.outside hpk t).trans (h.unlinked p hp hpk)

theorem relist (h : KeptLists m lists kept) (hq : q ∈ kept) (hr : r.type = t)
    (hlinks : m'.links = listAddTail (listDel m.links (.region q)) (.region q) (.head t))
    (hregion : m'.region = Function.update m.region q r) (hcreated : m'.created = m.created) :
    ∃ lists', KeptLists m' lists' kept := by
  have hoff : OnTypeLists { m.only kept with links := listDel m.links (.region q) } _ (some q) :=
    h.onLists.unlist hq rfl rfl rfl rfl
  have hset := hoff.setRegion (r := r) (Or.inl rfl)
  have hread : Function.update m.region q r q = r := Function.update_self ..
  have hlists : OnTypeLists (m'.only kept) _ none :=
    hset.enlist hq ((congrArg GcRegion.type hread).trans hr) hlinks rfl hregion
  refine ⟨_, hlists, hcreated ▸ h.created, fun x hx hxk => ?_, fun x hx hxk => ?_,
    hcreated ▸ h.nonNull⟩
  · have hxq : GcNode.region x ≠ .region q := fun he => hxk (GcNode.region.inj he ▸ hq)
    rw [hlinks, listAddTail_prev_other _ hxq GcNode.noConfusion]
    exact h.prev_del hq (hcreated ▸ hx) hxk
  · have hxq : x ≠ q := fun he => hxk (he ▸ hq)
    rw [hregion, Function.update_of_ne hxq]
    exact h.settled x (hcreated ▸ hx) hxk

/-- The two branches of `gc_region_promote` that put the region on another list. -/
theorem move (h : KeptLists m lists kept) (hq : q ∈ kept) (source : GcRegionType)
    (hr : r.type = t) :
    ∃ lists', KeptLists (((m.unlist q source).setRegion q r).enlist q t) lists' kept :=
  h.relist hq hr rfl rfl rfl

theorem drop (h : KeptLists m lists kept) (hq : q ∈ kept)
    (htype : (m.region q).type ≠ .young ∧ (m.region q).type ≠ .survivor)
    (hm : m' = { m with links := listDel m.links (.region q) }) :
    ∃ lists', KeptLists m' lists' (kept.filter (· ≠ q)) := by
  subst hm
  have hoff : OnTypeLists { m.only kept with links := listDel m.links (.region q) } _ (some q) :=
    h.onLists.unlist hq rfl rfl rfl rfl
  refine ⟨_, ⟨hoff.circ, fun t x => ?_⟩, fun x hx => h.created x (List.mem_filter.mp hx).1,
    fun x hx hxk => ?_, fun x hx hxk => ?_, h.nonNull⟩
  · rw [hoff.mem]
    show x ∈ kept ∧ _ ∧ _ ↔ x ∈ kept.filter (· ≠ q) ∧ _ ∧ _
    rw [List.mem_filter]
    constructor
    · rintro ⟨hx, htype, hne⟩
      exact ⟨⟨hx, decide_eq_true fun he => hne (he ▸ rfl)⟩, htype, by simp⟩
    · rintro ⟨⟨hx, hne⟩, htype, -⟩
      exact ⟨hx, htype, fun he => of_decide_eq_true hne (Option.some.inj he).symm⟩
  · by_cases hxq : x = q
    · rw [hxq]
      exact listDel_prev_self ..
    · refine h.prev_del hq hx fun hin => hxk ?_
      exact List.mem_filter.mpr ⟨hin, decide_eq_true hxq⟩
  · by_cases hxq : x = q
    · rw [hxq]
      exact htype
    · exact h.settled x hx fun hin => hxk (List.mem_filter.mpr ⟨hin, decide_eq_true hxq⟩)

/-- **`gc_region_promote`** leaves all regions on lists but the one that is promoted out of the wrong
type. -/
theorem promote (h : KeptLists m lists kept) (hq : q = 0 ∨ q ∈ kept) :
    ∃ lists' kept', KeptLists (gcRegionPromote m q) lists' kept' ∧
      ∀ p ∈ kept, p ≠ q ∨ (m.region q).type = .young ∨ (m.region q).type = .survivor →
        p ∈ kept' := by
  unfold gcRegionPromote
  by_cases hq0 : q = 0
  · rw [if_pos hq0]
    exact ⟨lists, kept, h, fun p hp _ => hp⟩
  rw [if_neg hq0]
  dsimp only
  have hqk := hq.resolve_left hq0
  cases ht : (m.region q).type with
  | young =>
    obtain ⟨lists', h'⟩ := h.move hqk .young (r := { m.region q with type := .survivor }) rfl
    exact ⟨lists', kept, h', fun p hp _ => hp⟩
  | survivor =>
    obtain ⟨lists', h'⟩ := h.move hqk .survivor (r := { m.region q with type := .old }) rfl
    exact ⟨lists', kept, h', fun p hp _ => hp⟩
  | empty | old | humongous | pinned =>
    obtain ⟨lists', h'⟩ := h.drop hqk (by rw [ht]; decide) rfl
    refine ⟨lists', _, h', fun p hp hne => List.mem_filter.mpr ⟨hp, decide_eq_true ?_⟩⟩
    exact hne.resolve_right (by decide)

theorem promote_fault (hq0 : q ≠ 0) (hnull : m.links.prev (.region q) = none) :
    (gcRegionPromote m q).links.fault = true := by
  have hdel := fault_listDel_of_null hnull
  unfold gcRegionPromote
  rw [if_neg hq0]
  dsimp only
  cases (m.region q).type with
  | young | survivor => exact fault_listAddTail hdel
  | empty | old | humongous | pinned => exact hdel

/-- **`gc_region_age`** promotes out of the right types only, which are on a list. -/
theorem age (h : KeptLists m lists kept) (hq : q = 0 ∨ q ∈ m.created) :
    ∃ lists' kept', KeptLists (gcRegionAge m q) lists' kept' ∧ ∀ p ∈ kept, p ∈ kept' := by
  unfold gcRegionAge
  by_cases hq0 : q = 0
  · rw [if_pos hq0]
    exact ⟨lists, kept, h, fun p hp => hp⟩
  rw [if_neg hq0]
  dsimp only
  obtain ⟨r, hr⟩ : ∃ r : GcRegion,
      r = { m.region q with age := ((m.region q).age + 1) % 2 ^ 32 } := ⟨_, rfl⟩
  have htype : r.type = (m.region q).type := by rw [hr]
  have hread : (m.setRegion q r).region q = r := Function.update_self ..
  have hset := h.setRegion htype
  have hkept : (m.region q).type = .young ∨ (m.region q).type = .survivor → q ∈ kept := by
    intro hpromoted
    by_contra hqk
    obtain ⟨hyoung, hsurvivor⟩ := h.settled q (hq.resolve_left hq0) hqk
    exact hpromoted.elim hyoung hsurvivor
  rw [← hr]
  split_ifs with h1 h2
  · obtain ⟨lists', kept', h', hstay⟩ := hset.promote (.inr (hkept (.inl h1.1)))
    exact ⟨lists', kept', h', fun p hp => hstay p hp (.inr (.inl (by rw [hread, htype, h1.1])))⟩
  · obtain ⟨lists', kept', h', hstay⟩ := hset.promote (.inr (hkept (.inr h2.1)))
    exact ⟨lists', kept', h', fun p hp => hstay p hp (.inr (.inr (by rw [hread, htype, h2.1])))⟩
  · exact ⟨lists, kept, hset, fun p hp => hp⟩

theorem free (h : KeptLists m lists kept) (hq : q = 0 ∨ q ∈ kept) :
    ∃ lists', KeptLists (gcRegionFree m q) lists' kept := by
  by_cases hq0 : q = 0
  · rw [show gcRegionFree m q = m from if_pos hq0]
    exact ⟨lists, h⟩
  obtain ⟨r, hregion, hcreated, hlinks, -, htype, -⟩ := gcRegionFree_record (m := m) hq0
  exact h.relist (hq.resolve_left hq0) htype hlinks hregion hcreated

theorem free_fault (hq0 : q ≠ 0) (hnull : m.links.prev (.region q) = none) :
    (gcRegionFree m q).links.fault = true := by
  obtain ⟨r, -, -, hlinks, -⟩ := gcRegionFree_record (m := m) hq0
  rw [hlinks]
  exact fault_listAddTail (fault_listDel_of_null hnull)

theorem create (h : KeptLists m lists kept) (hp0 : p ≠ 0) (hp : p ∉ m.created)
    (hregion : m'.region = Function.update (m.addCreated p r).region p r') (htype : r'.type = t)
    (hlinks : m'.links = listAddTail (m.addCreated p r).links (.region p) (.head t))
    (hcreated : m'.created = m.created ++ [p]) :
    ∃ lists', KeptLists m' lists' (kept ++ [p]) := by
  have hpk : p ∉ kept := fun hin => hp (h.created p hin)
  have hoff : OnTypeLists ((m.only kept).addCreated p r) lists (some p) := h.onLists.create hpk
  have hset := hoff.setRegion (r := r') (Or.inl rfl)
  have hread : Function.update (m.addCreated p r).region p r' p = r' := Function.update_self ..
  have hlists : OnTypeLists (m'.only (kept ++ [p])) _ none :=
    hset.enlist (List.mem_append_right _ (List.mem_singleton_self p))
      ((congrArg GcRegion.type hread).trans htype) hlinks rfl hregion
  have hold : ∀ x ∈ m'.created, x ∉ kept ++ [p] → x ≠ p ∧ x ∈ m.created ∧ x ∉ kept := by
    intro x hx hxk
    have hxp : x ≠ p := fun he => hxk (List.mem_append_right _ (List.mem_singleton.mpr he))
    rw [hcreated] at hx
    exact ⟨hxp, (List.mem_append.mp hx).resolve_right fun hin => hxp (List.mem_singleton.mp hin),
      fun hin => hxk (List.mem_append_left _ hin)⟩
  refine ⟨_, hlists, fun x hx => ?_, fun x hx hxk => ?_, fun x hx hxk => ?_, ?_⟩
  · rw [hcreated]
    exact List.mem_append.mpr ((List.mem_append.mp hx).imp_left (h.created x))
  · obtain ⟨hxp, hxm, hxkept⟩ := hold x hx hxk
    have hnode : GcNode.region x ≠ .region p := fun he => hxp (GcNode.region.inj he)
    rw [hlinks, listAddTail_prev_other _ hnode GcNode.noConfusion]
    exact (Function.update_of_ne hnode ..).trans (h.unlinked x hxm hxkept)
  · obtain ⟨hxp, hxm, hxkept⟩ := hold x hx hxk
    have hsame : m'.region x = m.region x := by
      rw [hregion, Function.update_of_ne hxp]
      exact Function.update_of_ne hxp ..
    rw [hsame]
    exact h.settled x hxm hxkept
  · rw [hcreated]
    refine fun h0 => (List.mem_append.mp h0).elim h.nonNull fun hin => hp0 ?_
    exact (List.mem_singleton.mp hin).symm

/-- **`gc_region_alloc`** takes a free region or creates one, or changes nothing. -/
theorem alloc (h : KeptLists m lists kept) (t : GcRegionType)
    (hfresh : ∀ p, env.addr = some p → p ≠ 0 ∧ p ∉ m.created) :
    gcRegionAlloc m t env = (m, none) ∨ ∃ q r lists' kept', (gcRegionAlloc m t env).2 = some q ∧
      KeptLists (gcRegionAlloc m t env).1 lists' kept' ∧ (q ∈ kept' ∧ ∀ p ∈ kept, p ∈ kept') ∧
      (gcRegionAlloc m t env).1.region = Function.update m.region q r ∧
      (r.type = t ∧ r.age = 0) ∧ (q ∈ kept → (m.region q).type = .empty) := by
  rcases h.onLists.alloc_cases_of (m := m) rfl t env with
    ⟨q, ps, hl, he⟩ | ⟨-, -, q, r, hc, he⟩ | ⟨-, -, he⟩
  · obtain ⟨hq, htype, -⟩ := (h.onLists.mem .empty q).mp (hl ▸ List.mem_cons_self)
    obtain ⟨r, hregion, hcreated, ht, hage, -⟩ := gcRegionSetup_record (m.unlist q .empty) t q
    obtain ⟨lists', h'⟩ := h.relist hq ht (gcRegionSetup_links ..) hregion hcreated
    rw [he]
    exact Or.inr ⟨q, r, lists', kept, rfl, h', ⟨hq, fun p hp => hp⟩, hregion, ⟨ht, hage⟩,
      fun _ => htype⟩
  · obtain ⟨hq0, hq⟩ := hfresh q (gcRegionCreate_record hc).1.1
    obtain ⟨r', hregion, hcreated, ht, hage, -⟩ := gcRegionSetup_record (m.addCreated q r) t q
    obtain ⟨lists', h'⟩ := h.create hq0 hq hregion ht (gcRegionSetup_links ..) hcreated
    rw [he]
    exact Or.inr ⟨q, r', lists', _, rfl, h', ⟨List.mem_append_right _ (List.mem_singleton_self q),
      fun p hp => List.mem_append_left _ hp⟩, hregion.trans (Function.update_idem ..), ⟨ht, hage⟩,
      fun hin => absurd (h.created q hin) hq⟩
  · exact Or.inl he

end KeptLists

/-- What a linked call does to the lists. -/
theorem KeptLists.step (h : KeptLists m lists kept) {c : RegionCall} (hc : c.Legal m)
    (hlinked : c.Linked m) : ∃ lists' kept', KeptLists (regionStep m c) lists' kept' := by
  cases c with
  | op op =>
    cases op with
    | alloc t env =>
      show ∃ lists' kept', KeptLists (gcRegionAlloc m t env).1 lists' kept'
      rcases h.alloc t hc with he | ⟨q, r, lists', kept', -, h', -⟩
      · rw [he]
        exact ⟨lists, kept, h⟩
      · exact ⟨lists', kept', h'⟩
    | free q =>
      obtain ⟨lists', h'⟩ := h.free (h.kept_of_linked hc hlinked)
      exact ⟨lists', kept, h'⟩
    | age q =>
      obtain ⟨lists', kept', h', -⟩ := h.age hc
      exact ⟨lists', kept', h'⟩
  | promote q =>
    obtain ⟨lists', kept', h', -⟩ := h.promote (h.kept_of_linked hc hlinked)
    exact ⟨lists', kept', h'⟩

/-- And what a call follows that is not. -/
theorem step_fault {c : RegionCall} (hlinked : ¬ c.Linked m) :
    (regionStep m c).links.fault = true := by
  have hnull : ∀ {q}, ¬ (q = 0 ∨ m.links.prev (.region q) ≠ none) →
      q ≠ 0 ∧ m.links.prev (.region q) = none := fun hno =>
    ⟨fun hq => hno (.inl hq), not_not.mp fun hprev => hno (.inr hprev)⟩
  cases c with
  | op op =>
    cases op with
    | alloc t env => exact absurd trivial hlinked
    | free q => exact KeptLists.free_fault (hnull hlinked).1 (hnull hlinked).2
    | age q => exact absurd trivial hlinked
  | promote q => exact KeptLists.promote_fault (hnull hlinked).1 (hnull hlinked).2

/-! ## NULL is followed once -/

theorem gcRegionPromote_fault (h : m.links.fault = true) :
    (gcRegionPromote m q).links.fault = true := by
  unfold gcRegionPromote
  split_ifs
  · exact h
  · dsimp only
    cases (m.region q).type with
    | young | survivor => exact fault_listAddTail (fault_listDel h)
    | empty | old | humongous | pinned => exact fault_listDel h

theorem gcRegionAge_fault (h : m.links.fault = true) : (gcRegionAge m q).links.fault = true := by
  unfold gcRegionAge
  dsimp only
  split_ifs
  · exact h
  · exact gcRegionPromote_fault h
  · exact gcRegionPromote_fault h
  · exact h

theorem gcRegionFree_fault (h : m.links.fault = true) : (gcRegionFree m q).links.fault = true := by
  by_cases hq0 : q = 0
  · rw [show gcRegionFree m q = m from if_pos hq0]
    exact h
  · obtain ⟨r, -, -, hlinks, -⟩ := gcRegionFree_record (m := m) hq0
    rw [hlinks]
    exact fault_listAddTail (fault_listDel h)

theorem gcRegionAlloc_fault (h : m.links.fault = true) (t : GcRegionType) (env : RegionEnv) :
    (gcRegionAlloc m t env).1.links.fault = true := by
  unfold gcRegionAlloc
  split_ifs
  · split
    · rw [gcRegionSetup_links]
      exact fault_listAddTail (fault_listDel h)
    · rfl
  · split
    · exact h
    · rw [gcRegionSetup_links]
      exact fault_listAddTail (fault_storeNext (fault_storePrev h))
  · exact h

theorem regionStep_fault (h : m.links.fault = true) (c : RegionCall) :
    (regionStep m c).links.fault = true := by
  cases c with
  | op op =>
    cases op with
    | alloc t env => exact gcRegionAlloc_fault h t env
    | free q => exact gcRegionFree_fault h
    | age q => exact gcRegionAge_fault h
  | promote q => exact gcRegionPromote_fault h

theorem regionRun_fault (h : m.links.fault = true) (calls : List RegionCall) :
    (Runs.after regionStep m calls).links.fault = true := by
  induction calls generalizing m with
  | nil => exact h
  | cons c calls ih => exact ih (regionStep_fault h c)

/-! ## the age of a region -/

theorem ageType_young (h : n ≤ 1) : ageType n = .young := if_pos h

theorem ageType_survivor (h : 1 < n) (h' : n ≤ 15) : ageType n = .survivor := by
  unfold ageType
  rw [if_neg (by omega), if_pos h']

theorem ageType_old (h : 15 < n) : ageType n = .old := by
  unfold ageType
  rw [if_neg (by omega), if_neg (by omega)]

theorem ageType_ne_empty (n : ℕ) : ageType n ≠ .empty := by
  unfold ageType
  split_ifs <;> decide

theorem agedType_eq (hage : r.age = n) (htype : r.type = ageType n) (hn : n + 1 < 2 ^ 32) :
    r.nextAge = n + 1 ∧ r.agedType = ageType (n + 1) := by
  have hnext : r.nextAge = n + 1 := by
    unfold GcRegion.nextAge
    rw [hage, Nat.mod_eq_of_lt hn]
  refine ⟨hnext, ?_⟩
  unfold GcRegion.agedType
  rw [hnext, htype]
  rcases Nat.lt_or_ge 15 n with hold | h15
  · rw [ageType_old hold, ageType_old (by omega)]
    rfl
  rcases Nat.lt_or_ge 1 n with hsurvivor | h1
  · rw [ageType_survivor hsurvivor h15, if_neg fun hc => absurd hc.1 (by decide)]
    rcases Nat.lt_or_ge 15 (n + 1) with hlast | hstays
    · rw [if_pos ⟨rfl, hlast⟩, ageType_old hlast]
    · rw [if_neg fun hc => absurd hc.2 (by omega), ageType_survivor (by omega) hstays]
  · rw [ageType_young h1]
    rcases Nat.lt_or_ge 1 (n + 1) with hlast | hstays
    · rw [if_pos ⟨rfl, hlast⟩, ageType_survivor hlast (by omega)]
    · rw [if_neg fun hc => absurd hc.2 (by omega), if_neg fun hc => absurd hc.1 (by decide),
        ageType_young hstays]

theorem gcRegionPromote_other (hp : p ≠ q) : (gcRegionPromote m q).region p = m.region p := by
  unfold gcRegionPromote
  split_ifs
  · rfl
  · dsimp only
    cases (m.region q).type with
    | young | survivor => exact Function.update_of_ne hp ..
    | empty | old | humongous | pinned => rfl

theorem gcRegionFree_other (hp : p ≠ q) : (gcRegionFree m q).region p = m.region p := by
  by_cases hq0 : q = 0
  · rw [show gcRegionFree m q = m from if_pos hq0]
  · obtain ⟨r, hregion, -⟩ := gcRegionFree_record (m := m) hq0
    rw [hregion, Function.update_of_ne hp]

/-- The region is on a list, and has the age and the type of that age. -/
structure Tracked (m : GcRegionManager) (kept : List ℕ) (p n : ℕ) : Prop where
  kept : p ∈ kept
  age : (m.region p).age = n
  type : (m.region p).type = ageType n

theorem Tracked.of_same {kept' : List ℕ} (h : Tracked m kept p n) (hkept : p ∈ kept')
    (hregion : m'.region p = m.region p) : Tracked m' kept' p n :=
  ⟨hkept, hregion ▸ h.age, hregion ▸ h.type⟩

theorem Tracked.hasAge (hp : Tracked m kept p n) (h : KeptLists m lists kept) : HasAge m p n := by
  refine ⟨hp.age, hp.type, lists, h.onLists.circ.circ, fun t => ?_⟩
  rw [h.onLists.mem]
  show p ∈ kept ∧ (m.region p).type = t ∧ _ ↔ _
  rw [hp.type]
  exact ⟨fun hl => hl.2.1.symm, fun ht => ⟨hp.kept, ht.symm, by simp⟩⟩

/-- **One linked call.**  The region has a year more if the call is `gc_region_age` of it, and is what
it was if not. -/
theorem tracked_step (h : KeptLists m lists kept) (hp : Tracked m kept p n) {c : RegionCall}
    (hc : c.Legal m) (hlinked : c.Linked m) (hspares : c.Spares p)
    (hn : n + (if c.ages p then 1 else 0) < 2 ^ 32) :
    ∃ lists' kept', KeptLists (regionStep m c) lists' kept' ∧
      Tracked (regionStep m c) kept' p (n + if c.ages p then 1 else 0) := by
  have hp0 : p ≠ 0 := fun he => h.nonNull (he ▸ h.created p hp.kept)
  cases c with
  | op op =>
    cases op with
    | alloc t env =>
      show ∃ lists' kept', KeptLists (gcRegionAlloc m t env).1 lists' kept' ∧
        Tracked (gcRegionAlloc m t env).1 kept' p n
      rcases h.alloc t hc with he | ⟨q, r, lists', kept', -, h', ⟨-, hkept⟩, hregion, -, hempty⟩
      · rw [he]
        exact ⟨lists, kept, h, hp⟩
      · -- the region that is returned was free or did not exist
        have hpq : p ≠ q := by
          rintro rfl
          exact ageType_ne_empty n (hp.type ▸ hempty hp.kept)
        refine ⟨lists', kept', h', hp.of_same (hkept p hp.kept) ?_⟩
        rw [hregion, Function.update_of_ne hpq]
    | free q =>
      obtain ⟨lists', h'⟩ := h.free (h.kept_of_linked hc hlinked)
      exact ⟨lists', kept, h', hp.of_same hp.kept (gcRegionFree_other (Ne.symm hspares))⟩
    | age q =>
      obtain ⟨lists', kept', h', hkept⟩ := h.age hc
      refine ⟨lists', kept', h', ?_⟩
      show Tracked (gcRegionAge m q) kept' p (n + if decide (q = p) = true then 1 else 0)
      by_cases hqp : q = p
      · subst hqp
        obtain ⟨r, hregion, -, htype, hage⟩ := gcRegionAge_record (m := m) hp0
        have hread : (gcRegionAge m q).region q = r := by rw [hregion, Function.update_self]
        have hn' : n + 1 < 2 ^ 32 := by simpa [RegionCall.ages] using hn
        obtain ⟨hnext, haged⟩ := agedType_eq hp.age hp.type hn'
        rw [decide_eq_true rfl, if_pos rfl]
        exact ⟨hkept q hp.kept, by rw [hread, hage, hnext], by rw [hread, htype, haged]⟩
      · rw [decide_eq_false hqp, if_neg Bool.false_ne_true, Nat.add_zero]
        exact hp.of_same (hkept p hp.kept) (gcRegionAge_other (Ne.symm hqp))
  | promote q =>
    obtain ⟨lists', kept', h', hkept⟩ := h.promote (h.kept_of_linked hc hlinked)
    have hpq : p ≠ q := Ne.symm hspares
    exact ⟨lists', kept', h', hp.of_same (hkept p hp.kept (Or.inl hpq)) (gcRegionPromote_other hpq)⟩

/-- **A run**: the years are the calls of `gc_region_age` on the region, unless NULL is followed. -/
theorem tracked_run {calls : List RegionCall} (h : KeptLists m lists kept) (hp : Tracked m kept p n)
    (hcalls : Runs.Each regionStep (fun m c => c.Legal m ∧ c.Spares p) m calls)
    (hn : n + calls.countP (RegionCall.ages p) < 2 ^ 32) :
    ((Runs.after regionStep m calls).links.fault = false ∧
        HasAge (Runs.after regionStep m calls) p (n + calls.countP (RegionCall.ages p))) ↔
      Runs.Each regionStep (fun m c => c.Linked m) m calls := by
  induction calls generalizing m lists kept n with
  | nil => exact iff_of_true ⟨h.onLists.circ.noFault, hp.hasAge h⟩ trivial
  | cons c calls ih =>
    obtain ⟨⟨hc, hspares⟩, hcalls⟩ := hcalls
    have hcount : n + (c :: calls).countP (RegionCall.ages p) =
        (n + if c.ages p then 1 else 0) + calls.countP (RegionCall.ages p) := by
      rw [List.countP_cons]
      omega
    rw [hcount] at hn ⊢
    by_cases hlinked : c.Linked m
    · obtain ⟨lists', kept', h', hp'⟩ := tracked_step h hp hc hlinked hspares (by omega)
      rw [Runs.each_cons, and_iff_right hlinked]
      exact ih h' hp' hcalls hn
    · have hfault := regionRun_fault (step_fault hlinked) calls
      refine iff_of_false (fun hages => ?_) (fun hall => hlinked hall.1)
      exact Bool.false_ne_true (hages.1.symm.trans hfault)

/-- The lists are kept all along a run, as long as its calls are linked. -/
theorem keptLists_run {calls : List RegionCall} (h : KeptLists m lists kept)
    (hcalls : Runs.Each regionStep RegionCall.Legal m calls) :
    (Runs.Each regionStep (fun m c => c.Linked m) m calls ∧
        ∃ lists' kept', KeptLists (Runs.after regionStep m calls) lists' kept') ∨
      (¬ Runs.Each regionStep (fun m c => c.Linked m) m calls ∧
        (Runs.after regionStep m calls).links.fault = true) := by
  induction calls generalizing m lists kept with
  | nil => exact .inl ⟨trivial, lists, kept, h⟩
  | cons c calls ih =>
    by_cases hlinked : c.Linked m
    · obtain ⟨lists', kept', h'⟩ := h.step hcalls.1 hlinked
      rw [Runs.each_cons, and_iff_right hlinked]
      exact ih h' hcalls.2
    · exact .inr ⟨fun hall => hlinked hall.1, regionRun_fault (step_fault hlinked) calls⟩

end

theorem keptLists_init : KeptLists gcRegionManagerInit (fun _ => []) [] :=
  ⟨gcRegionManagerInit_inv.1.typeLists.toOnTypeLists, fun _ hq => absurd hq List.not_mem_nil,
    fun _ hq => absurd hq List.not_mem_nil, fun _ hq => absurd hq List.not_mem_nil,
    List.not_mem_nil⟩

/-- **How a young region grows old.**  In any state of the manager a region is allocated as young,
and then any calls are made that do not free it, or promote it but by ageing it.  It has a year for
each call of `gc_region_age` on it, the type for that age, and is on the list of that type, exactly
if no call, before or after, has promoted or freed a region that is on no list any more. -/
theorem region_ages_iff {calls : List RegionCall}
    (hcalls : Runs.Each regionStep RegionCall.Legal gcRegionManagerInit calls) {env : RegionEnv}
    (henv : (RegionCall.op (.alloc .young env)).Legal
      (Runs.after regionStep gcRegionManagerInit calls)) {m : GcRegionManager} {p : ℕ}
    (halloc : gcRegionAlloc (Runs.after regionStep gcRegionManagerInit calls) .young env =
      (m, some p)) {later : List RegionCall}
    (hlater : Runs.Each regionStep (fun m c => c.Legal m ∧ c.Spares p) m later)
    (hn : later.countP (RegionCall.ages p) < 2 ^ 32) :
    ((Runs.after regionStep m later).links.fault = false ∧
        HasAge (Runs.after regionStep m later) p (later.countP (RegionCall.ages p))) ↔
      Runs.Each regionStep (fun m c => c.Linked m) gcRegionManagerInit calls ∧
        Runs.Each regionStep (fun m c => c.Linked m) m later := by
  rcases keptLists_run keptLists_init hcalls with ⟨hlinked, lists, kept, h⟩ | ⟨hunlinked, hfault⟩
  · rw [and_iff_right hlinked]
    rcases h.alloc .young henv with he | ⟨q, r, lists', kept', hq, h', ⟨hkept, -⟩, hregion, hr, -⟩
    · rw [halloc] at he
      cases he
    · rw [halloc] at hq h' hregion
      cases hq
      have hread : m.region p = r := hregion ▸ Function.update_self ..
      have htracked : Tracked m kept' p 0 := ⟨hkept, hread ▸ hr.2, hread ▸ hr.1⟩
      rw [← Nat.zero_add (later.countP _)] at hn ⊢
      exact tracked_run h' htracked hlater hn
  · have hm := gcRegionAlloc_fault hfault .young env
    rw [halloc] at hm
    refine iff_of_false (fun hages => ?_) (fun hall => hunlinked hall.1)
    exact Bool.false_ne_true (hages.1.symm.trans (regionRun_fault hm later))

/-- A young region and an old one. -/
def youngAndOld : GcRegionManager :=
  (gcRegionAlloc (gcRegionAlloc gcRegionManagerInit .old ⟨some 200, some 0x400000, true, true⟩).1
    .young ⟨some 100, some 0x200000, true, true⟩).1

/-- Two years, between which the old region is promoted and lost. -/
theorem region_ages_two :
    ((Runs.after regionStep youngAndOld [.op (.age 100), .promote 200, .op (.age 100)]).links.fault =
        false ∧
      HasAge (Runs.after regionStep youngAndOld [.op (.age 100), .promote 200, .op (.age 100)])
        100 2) ↔
    Runs.Each regionStep (fun m c => c.Linked m) gcRegionManagerInit
        [.op (.alloc .old ⟨some 200, some 0x400000, true, true⟩)] ∧
      Runs.Each regionStep (fun m c => c.Linked m) youngAndOld
        [.op (.age 100), .promote 200, .op (.age 100)] := by
  have hcalls : Runs.Each regionStep RegionCall.Legal gcRegionManagerInit
      [.op (.alloc .old ⟨some 200, some 0x400000, true, true⟩)] := by
    refine ⟨fun p hp => ?_, trivial⟩
    cases hp
    exact ⟨by decide, by decide⟩
  have henv : (RegionCall.op (.alloc .young ⟨some 100, some 0x200000, true, true⟩)).Legal
      (Runs.after regionStep gcRegionManagerInit
        [.op (.alloc .old ⟨some 200, some 0x400000, true, true⟩)]) := by
    intro p hp
    cases hp
    exact ⟨by decide, by decide⟩
  have hother : (RegionCall.promote 200).Spares 100 := show 200 ≠ 100 by decide
  exact region_ages_iff hcalls henv rfl ⟨⟨Or.inr (by decide), trivial⟩, ⟨Or.inr (by decide), hother⟩,
    ⟨Or.inr (by decide), trivial⟩, trivial⟩ (by decide)

/-- The old region is promoted twice: the second time `list_del` follows NULL. -/
theorem region_ages_lost : ¬ ∀ later : List RegionCall,
    Runs.Each regionStep (fun m c => c.Legal m ∧ c.Spares 100) youngAndOld later →
    later.countP (RegionCall.ages 100) < 2 ^ 32 →
      (Runs.after regionStep youngAndOld later).links.fault = false ∧
        HasAge (Runs.after regionStep youngAndOld later) 100
          (later.countP (RegionCall.ages 100)) := by
  intro hall
  have hother : (RegionCall.promote 200).Spares 100 := show 200 ≠ 100 by decide
  obtain ⟨hfault, -⟩ := hall [.promote 200, .promote 200]
    ⟨⟨Or.inr (by decide), hother⟩, ⟨Or.inr (by decide), hother⟩, trivial⟩ (by decide)
  exact absurd hfault (by decide)

end Nomalloc
