import Mathlib.Data.Finset.Card
import Mathlib.Data.Int.Interval
import Mathlib.Logic.Function.Basic
import Nomalloc.Lib.Runs

/-!
# `memory/arena.c`: the table of arenas

`g_arena_manager` has a table of `MAX_ARENAS` pointers.  An arena is numbered by `num_arenas` when
it is created; when it is destroyed its slot becomes NULL, and `num_arenas` goes down where it was
the last one.

* `ArenaManager`, `arenaManagerInit`, `arenaManagerShutdown`, `arenaCreate`, `arenaDestroy`, with
  the arenas that exist in libc memory;
* `ArenaTable`        the manager with the nodes of the arenas: `arenaGetCurrent`, `arenaGetById`,
                      `arenaGetByNumaNode`;
* `arena_table_iff`   the lookups do what they are for exactly as long as arenas are destroyed from
                      the end of the table.

The chunks of an arena, and what becomes of them, are `Arena`.  The locks are left out.
-/

namespace Nomalloc

def MAX_ARENAS : ℕ := 64

/-- `struct arena_manager` with the `id` of every arena, and the arenas that exist. -/
structure ArenaManager where
  arenas : ℕ → ℕ
  numArenas : ℕ
  id : ℕ → ℕ
  made : List ℕ

namespace ArenaManager

/-- `memset(&g_arena_manager, 0, sizeof(g_arena_manager))`: the arenas themselves stay in memory. -/
def clear (m : ArenaManager) : ArenaManager := { m with arenas := fun _ => 0, numArenas := 0 }

/-- `arena_manager_init` -/
def arenaManagerInit (m : ArenaManager) : ℤ × ArenaManager := (0, m.clear)

/-- `arena_create`; libc answers `raw`. -/
def arenaCreate (m : ArenaManager) (raw : ℕ) : ℕ × ArenaManager :=
  if MAX_ARENAS ≤ m.numArenas then (0, m)
  else if raw = 0 then (0, m)
  else (raw, { m with
    arenas := Function.update m.arenas m.numArenas raw
    numArenas := m.numArenas + 1
    id := Function.update m.id raw m.numArenas
    made := raw :: m.made })

/-- `arena_destroy` -/
def arenaDestroy (m : ArenaManager) (arena : ℕ) : ArenaManager :=
  if arena = 0 then m
  else
    let m := if m.id arena < MAX_ARENAS then { m with
        arenas := Function.update m.arenas (m.id arena) 0
        numArenas := if m.id arena + 1 = m.numArenas then m.numArenas - 1 else m.numArenas }
      else m
    { m with made := m.made.erase arena }

/-- One round of the loop of `arena_manager_shutdown`. -/
def destroyAt (m : ArenaManager) (i : ℕ) : ArenaManager :=
  if i < m.numArenas then
    if m.arenas i ≠ 0 then
      let m := m.arenaDestroy (m.arenas i)
      { m with arenas := Function.update m.arenas i 0 }
    else m
  else m

/-- `arena_manager_shutdown`; the loop ends early when the manager has fewer arenas by then. -/
def arenaManagerShutdown (m : ArenaManager) : ArenaManager :=
  ((List.range m.numArenas).foldl destroyAt m).clear

/-- The manager holds no arena, and none is left in memory. -/
structure Empty (m : ArenaManager) : Prop where
  count : m.numArenas = 0
  slots : ∀ i, m.arenas i = 0
  made : m.made = []

/-- The manager holds exactly one arena, and it is the only one in memory. -/
structure HoldsOne (m : ArenaManager) : Prop where
  count : m.numArenas = 1
  first : m.arenas 0 ≠ 0
  others : ∀ i, i ≠ 0 → m.arenas i = 0
  made : m.made = [m.arenas 0]
  id : m.id (m.arenas 0) = 0

theorem Empty.clear {m : ArenaManager} (h : m.made = []) : m.clear.Empty := ⟨rfl, fun _ => rfl, h⟩

theorem Empty.arenaCreate {m : ArenaManager} (h : m.Empty) (raw : ℕ) :
    (raw = 0 ∧ m.arenaCreate raw = (0, m)) ∨
      (raw ≠ 0 ∧ (m.arenaCreate raw).1 = raw ∧ (m.arenaCreate raw).2.HoldsOne) := by
  obtain ⟨hcount, hslots, hmade⟩ := h
  have hroom : ¬ MAX_ARENAS ≤ m.numArenas := by
    rw [hcount]
    decide
  unfold ArenaManager.arenaCreate
  rw [if_neg hroom]
  by_cases hraw : raw = 0
  · exact .inl ⟨hraw, if_pos hraw⟩
  · rw [if_neg hraw, hcount]
    have hfirst : Function.update m.arenas 0 raw 0 = raw := Function.update_self ..
    refine .inr ⟨hraw, rfl, rfl, ?_, fun i hi => ?_, ?_, ?_⟩
    · dsimp only
      rw [hfirst]
      exact hraw
    · dsimp only
      rw [Function.update_of_ne hi]
      exact hslots i
    · dsimp only
      rw [hfirst, hmade]
    · dsimp only
      rw [hfirst]
      exact Function.update_self ..

/-- Shutting down destroys it. -/
theorem HoldsOne.arenaManagerShutdown {m : ArenaManager} (h : m.HoldsOne) :
    m.arenaManagerShutdown.Empty := by
  obtain ⟨hcount, hfirst, hothers, hmade, hid⟩ := h
  have hloop : (List.range m.numArenas).foldl destroyAt m = destroyAt m 0 := by
    rw [hcount]
    rfl
  unfold ArenaManager.arenaManagerShutdown
  rw [hloop]
  refine Empty.clear ?_
  unfold destroyAt arenaDestroy
  rw [if_pos (by omega), if_pos hfirst, if_neg hfirst, if_pos (by rw [hid]; decide)]
  dsimp only
  rw [hmade]
  exact List.erase_cons_head ..

end ArenaManager

/-- The manager, with the `numa_node` of every arena. -/
structure ArenaTable extends ArenaManager where
  numaNode : ℕ → ℤ

namespace ArenaTable

/-- After `arena_manager_init`. -/
def init : ArenaTable := ⟨⟨fun _ => 0, 0, fun _ => 0, []⟩, fun _ => 0⟩

/-- `arena_create`, with the argument that `ArenaManager.arenaCreate` leaves out. -/
def arenaCreate (t : ArenaTable) (numaNode : ℤ) (raw : ℕ) : ℕ × ArenaTable :=
  let (arena, m) := t.toArenaManager.arenaCreate raw
  (arena, ⟨m, if arena = 0 then t.numaNode else Function.update t.numaNode arena numaNode⟩)

/-- `arena_destroy` -/
def arenaDestroy (t : ArenaTable) (arena : ℕ) : ArenaTable :=
  ⟨t.toArenaManager.arenaDestroy arena, t.numaNode⟩

/-- `arena_get_current`, with `thread_arena_id` before and after. -/
def arenaGetCurrent (t : ArenaTable) (threadArenaId : ℤ) : ℕ × ℤ :=
  if t.numArenas = 0 then (0, threadArenaId)
  else if 0 ≤ threadArenaId ∧ threadArenaId < t.numArenas then
    (t.arenas threadArenaId.toNat, threadArenaId)
  else (t.arenas 0, 0)

/-- `arena_get_by_id` -/
def arenaGetById (t : ArenaTable) (id : ℤ) : ℕ :=
  if id < 0 ∨ t.numArenas ≤ id then 0 else t.arenas id.toNat

/-- The loop of `arena_get_by_numa_node` over the slots `is`; `none` is a read of an arena that does
not exist. -/
def numaLoop (t : ArenaTable) (numaNode : ℤ) : List ℕ → Option ℕ
  | [] => some 0
  | i :: is =>
    if t.arenas i ∉ t.made then none
    else if t.numaNode (t.arenas i) = numaNode then some (t.arenas i)
    else numaLoop t numaNode is

/-- `arena_get_by_numa_node` -/
def arenaGetByNumaNode (t : ArenaTable) (numaNode : ℤ) : Option ℕ :=
  numaLoop t numaNode (List.range t.numArenas)

end ArenaTable

/-- A call of `arena_create`, with libc's answer, or of `arena_destroy`. -/
inductive TableOp where
  | create (numaNode : ℤ) (raw : ℕ)
  | destroy (arena : ℕ)

/-- A value of `int`. -/
def IsInt (n : ℤ) : Prop := -2 ^ 31 ≤ n ∧ n < 2 ^ 31

/-- What `thread_arena_id` can be: it starts as -1, and is set to zero. -/
def IsThreadArenaId (n : ℤ) : Prop := n = -1 ∨ n = 0

namespace ArenaTable

def step (t : ArenaTable) : TableOp → ArenaTable
  | .create numaNode raw => (t.arenaCreate numaNode raw).2
  | .destroy arena => t.arenaDestroy arena

end ArenaTable

/-- libc's memory is new; the callers destroy NULL and live arenas. -/
def TableOp.Legal (t : ArenaTable) : TableOp → Prop
  | .create numaNode raw => IsInt numaNode ∧ raw ∉ t.made
  | .destroy arena => arena = 0 ∨ arena ∈ t.made

/-- The arena that is destroyed, if any, is the last one of the table. -/
def TableOp.FromEnd (t : ArenaTable) : TableOp → Prop
  | .create _ _ => True
  | .destroy arena => arena = 0 ∨ t.id arena + 1 = t.numArenas

namespace ArenaTable

/-- Live arenas have numbers of their own, the table leads to them, and the lookups follow no pointer
but to live arenas and find one where there is one. -/
structure TableOk (t : ArenaTable) : Prop where
  bound : t.numArenas ≤ MAX_ARENAS
  below : ∀ p ∈ t.made, t.id p < t.numArenas
  slot : ∀ p ∈ t.made, t.arenas (t.id p) = p
  distinct : ∀ p ∈ t.made, ∀ q ∈ t.made, t.id p = t.id q → p = q
  current : ∀ n, IsThreadArenaId n →
    ((t.arenaGetCurrent n).1 = 0 ∨ (t.arenaGetCurrent n).1 ∈ t.made) ∧
      (t.made ≠ [] → (t.arenaGetCurrent n).1 ∈ t.made)
  byId : ∀ id, IsInt id → (t.arenaGetById id = 0 ∨ t.arenaGetById id ∈ t.made) ∧
    ∀ p ∈ t.made, t.id p = id → t.arenaGetById id = p
  byNumaNode : ∀ node, IsInt node → ∃ r, t.arenaGetByNumaNode node = some r ∧
    (r = 0 ∨ r ∈ t.made ∧ t.numaNode r = node) ∧
      ((∃ p ∈ t.made, t.numaNode p = node) → r ∈ t.made)

/-- Every slot below `num_arenas` holds a live arena, that has its number. -/
structure Dense (t : ArenaTable) : Prop where
  bound : t.numArenas ≤ MAX_ARENAS
  nonNull : 0 ∉ t.made
  nodup : t.made.Nodup
  below : ∀ p ∈ t.made, t.id p < t.numArenas
  slot : ∀ p ∈ t.made, t.arenas (t.id p) = p
  full : ∀ i < t.numArenas, t.arenas i ∈ t.made ∧ t.id (t.arenas i) = i

variable {t : ArenaTable}

/-! ## creating and destroying -/

/-- A new arena takes the slot behind the others. -/
theorem arenaCreate_cases (t : ArenaTable) (numaNode : ℤ) (raw : ℕ) :
    (t.arenaCreate numaNode raw).2 = t ∨
      raw ≠ 0 ∧ t.numArenas < MAX_ARENAS ∧ (t.arenaCreate numaNode raw).2 =
        ⟨⟨Function.update t.arenas t.numArenas raw, t.numArenas + 1,
          Function.update t.id raw t.numArenas, raw :: t.made⟩,
          Function.update t.numaNode raw numaNode⟩ := by
  unfold arenaCreate ArenaManager.arenaCreate
  by_cases hfull : MAX_ARENAS ≤ t.numArenas
  · rw [if_pos hfull]
    exact .inl rfl
  by_cases hraw : raw = 0
  · rw [if_neg hfull, if_pos hraw]
    exact .inl rfl
  · rw [if_neg hfull, if_neg hraw]
    dsimp only
    rw [if_neg hraw]
    exact .inr ⟨hraw, Nat.not_le.mp hfull, rfl⟩

/-- The slot of the arena is NULL, and the last one goes. -/
theorem arenaDestroy_eq {p : ℕ} (hp : p ≠ 0) (hid : t.id p < MAX_ARENAS) :
    t.arenaDestroy p =
      ⟨⟨Function.update t.arenas (t.id p) 0,
        if t.id p + 1 = t.numArenas then t.numArenas - 1 else t.numArenas, t.id, t.made.erase p⟩,
        t.numaNode⟩ := by
  unfold arenaDestroy ArenaManager.arenaDestroy
  rw [if_neg hp, if_pos hid]

theorem arenaDestroy_zero : t.arenaDestroy 0 = t := by
  unfold arenaDestroy ArenaManager.arenaDestroy
  rw [if_pos rfl]

namespace Dense

theorem init : ArenaTable.init.Dense :=
  ⟨Nat.zero_le _, List.not_mem_nil, List.nodup_nil, fun _ hp => absurd hp List.not_mem_nil,
    fun _ hp => absurd hp List.not_mem_nil, fun i hi => absurd hi (Nat.not_lt_zero i)⟩

theorem create (h : t.Dense) (numaNode : ℤ) {raw : ℕ} (hraw : raw ∉ t.made) :
    (t.arenaCreate numaNode raw).2.Dense := by
  obtain he | ⟨hne, hroom, he⟩ := arenaCreate_cases t numaNode raw
  · rw [he]
    exact h
  rw [he]
  have hold : ∀ p ∈ t.made, p ≠ raw := fun p hp hpr => hraw (hpr ▸ hp)
  refine ⟨hroom, ?_, List.nodup_cons.mpr ⟨hraw, h.nodup⟩, fun p hp => ?_, fun p hp => ?_,
    fun i hi => ?_⟩
  · exact fun hz => (List.mem_cons.mp hz).elim (fun hz => hne hz.symm) h.nonNull
  · show Function.update t.id raw t.numArenas p < t.numArenas + 1
    rcases List.mem_cons.mp hp with rfl | hp
    · rw [Function.update_self]
      exact Nat.lt_succ_self _
    · rw [Function.update_of_ne (hold p hp)]
      exact Nat.lt_succ_of_lt (h.below p hp)
  · show Function.update t.arenas t.numArenas raw (Function.update t.id raw t.numArenas p) = p
    rcases List.mem_cons.mp hp with rfl | hp
    · rw [Function.update_self, Function.update_self]
    · rw [Function.update_of_ne (hold p hp), Function.update_of_ne (Nat.ne_of_lt (h.below p hp))]
      exact h.slot p hp
  · show Function.update t.arenas t.numArenas raw i ∈ raw :: t.made ∧
      Function.update t.id raw t.numArenas (Function.update t.arenas t.numArenas raw i) = i
    rcases Nat.lt_succ_iff_lt_or_eq.mp hi with hlt | rfl
    · obtain ⟨hmem, hid⟩ := h.full i hlt
      rw [Function.update_of_ne (Nat.ne_of_lt hlt), Function.update_of_ne (hold _ hmem)]
      exact ⟨List.mem_cons_of_mem _ hmem, hid⟩
    · rw [Function.update_self, Function.update_self]
      exact ⟨List.mem_cons_self, rfl⟩

theorem destroy (h : t.Dense) {p : ℕ} (hp : p = 0 ∨ p ∈ t.made)
    (hlast : p = 0 ∨ t.id p + 1 = t.numArenas) : (t.arenaDestroy p).Dense := by
  by_cases hz : p = 0
  · rw [hz, arenaDestroy_zero]
    exact h
  have hp := hp.resolve_left hz
  have hlast := hlast.resolve_left hz
  have hbelow := h.below p hp
  have hbound := h.bound
  rw [arenaDestroy_eq hz (by omega), if_pos hlast]
  -- the other arenas have other numbers
  have hother : ∀ q ∈ t.made, q ≠ p → t.id q ≠ t.id p := fun q hq hne he =>
    hne ((h.slot q hq).symm.trans ((congrArg t.arenas he).trans (h.slot p hp)))
  have hmem : ∀ q, q ∈ t.made.erase p ↔ q ≠ p ∧ q ∈ t.made := fun q => h.nodup.mem_erase_iff
  refine ⟨(Nat.sub_le _ _).trans hbound, ?_, h.nodup.erase p, fun q hq => ?_, fun q hq => ?_,
    fun i hi => ?_⟩
  · exact fun hmade => h.nonNull (List.mem_of_mem_erase hmade)
  · show t.id q < t.numArenas - 1
    obtain ⟨hne, hq⟩ := (hmem q).mp hq
    have h1 := h.below q hq
    have h2 := hother q hq hne
    omega
  · show Function.update t.arenas (t.id p) 0 (t.id q) = q
    obtain ⟨hne, hq⟩ := (hmem q).mp hq
    rw [Function.update_of_ne (hother q hq hne)]
    exact h.slot q hq
  · show Function.update t.arenas (t.id p) 0 i ∈ t.made.erase p ∧
      t.id (Function.update t.arenas (t.id p) 0 i) = i
    have hi : i < t.numArenas - 1 := hi
    obtain ⟨hmade, hid⟩ := h.full i (by omega)
    have hne : i ≠ t.id p := by omega
    rw [Function.update_of_ne hne]
    refine ⟨(hmem _).mpr ⟨fun he => hne ?_, hmade⟩, hid⟩
    rw [← he]
    exact hid.symm

theorem step (h : t.Dense) {op : TableOp} (hlegal : op.Legal t) (hend : op.FromEnd t) :
    (t.step op).Dense := by
  cases op with
  | create numaNode raw => exact h.create numaNode hlegal.2
  | destroy p => exact h.destroy hlegal hend

theorem length_le (h : t.Dense) : t.made.length ≤ MAX_ARENAS := by
  have hnodup : (t.made.map t.id).Nodup :=
    List.Nodup.map_on (fun p hp q hq he =>
      (h.slot p hp).symm.trans ((congrArg t.arenas he).trans (h.slot q hq))) h.nodup
  have hsub : t.made.map t.id ⊆ List.range t.numArenas := by
    intro i hi
    obtain ⟨p, hp, rfl⟩ := List.mem_map.mp hi
    exact List.mem_range.mpr (h.below p hp)
  have hlen := (List.subperm_of_subset hnodup hsub).length_le
  rw [List.length_map, List.length_range] at hlen
  exact hlen.trans h.bound

end Dense

/-! ## the lookups -/

/-- Where every slot holds a live arena, the loop stops at the first of the node. -/
theorem numaLoop_dense (t : ArenaTable) {is : List ℕ} (hfull : ∀ i ∈ is, t.arenas i ∈ t.made)
    (node : ℤ) :
    ∃ r, numaLoop t node is = some r ∧ (r = 0 ∨ r ∈ t.made ∧ t.numaNode r = node) ∧
      ((∃ i ∈ is, t.numaNode (t.arenas i) = node) → r ∈ t.made) := by
  induction is with
  | nil => exact ⟨0, rfl, .inl rfl, fun ⟨i, hi, _⟩ => absurd hi List.not_mem_nil⟩
  | cons i is ih =>
    have hi := hfull i List.mem_cons_self
    unfold numaLoop
    rw [if_neg (not_not.mpr hi)]
    by_cases hnode : t.numaNode (t.arenas i) = node
    · rw [if_pos hnode]
      exact ⟨_, rfl, .inr ⟨hi, hnode⟩, fun _ => hi⟩
    · rw [if_neg hnode]
      obtain ⟨r, hr, hlive, hfound⟩ := ih fun j hj => hfull j (List.mem_cons_of_mem _ hj)
      refine ⟨r, hr, hlive, fun ⟨j, hj, he⟩ => hfound ⟨j, ?_, he⟩⟩
      exact (List.mem_cons.mp hj).resolve_left fun hji => hnode (hji ▸ he)

/-- A node that no arena has leads the loop into a hole. -/
theorem numaLoop_hole (t : ArenaTable) {is : List ℕ} {node : ℤ}
    (hnode : ∀ p ∈ t.made, t.numaNode p ≠ node) (hhole : ∃ i ∈ is, t.arenas i ∉ t.made) : numaLoop t node is = none := by
  induction is with
  | nil => exact absurd hhole.choose_spec.1 List.not_mem_nil
  | cons i is ih =>
    unfold numaLoop
    by_cases hi : t.arenas i ∈ t.made
    · rw [if_neg (not_not.mpr hi), if_neg (hnode _ hi)]
      obtain ⟨j, hj, hout⟩ := hhole
      exact ih ⟨j, (List.mem_cons.mp hj).resolve_left fun hji => hout (hji ▸ hi), hout⟩
    · rw [if_pos hi]

/-- Few arenas do not have all the nodes. -/
theorem exists_unused_node {xs : List ℕ} (hlen : xs.length ≤ MAX_ARENAS) (numaNode : ℕ → ℤ) :
    ∃ node, IsInt node ∧ ∀ p ∈ xs, numaNode p ≠ node := by
  have hcard : (xs.map numaNode).toFinset.card < (Finset.Icc (0 : ℤ) 64).card := by
    have h1 := List.toFinset_card_le (xs.map numaNode)
    have h2 : (Finset.Icc (0 : ℤ) 64).card = 65 := rfl
    have h3 : MAX_ARENAS = 64 := rfl
    rw [List.length_map] at h1
    omega
  obtain ⟨node, hin, hout⟩ := Finset.exists_mem_notMem_of_card_lt_card hcard
  obtain ⟨hlo, hhi⟩ := Finset.mem_Icc.mp hin
  refine ⟨node, ⟨by omega, by omega⟩, fun p hp he => hout ?_⟩
  exact List.mem_toFinset.mpr (List.mem_map.mpr ⟨p, hp, he⟩)

theorem Dense.tableOk (h : t.Dense) : t.TableOk := by
  have hslot : ∀ i : ℤ, 0 ≤ i → i < t.numArenas → t.arenas i.toNat ∈ t.made := fun i h0 hi =>
    (h.full i.toNat (by omega)).1
  refine ⟨h.bound, h.below, h.slot, fun p hp q hq he => ?_, fun n hn => ?_, fun id _ => ?_,
    fun node _ => ?_⟩
  · exact (h.slot p hp).symm.trans ((congrArg t.arenas he).trans (h.slot q hq))
  · unfold arenaGetCurrent
    by_cases hzero : t.numArenas = 0
    · have hnone : t.made = [] := List.eq_nil_iff_forall_not_mem.mpr fun p hp =>
        absurd (h.below p hp) (by omega)
      rw [if_pos hzero]
      exact ⟨.inl rfl, fun hne => absurd hnone hne⟩
    · rw [if_neg hzero]
      have hfirst : t.arenas 0 ∈ t.made := (h.full 0 (Nat.pos_of_ne_zero hzero)).1
      rcases hn with rfl | rfl
      · rw [if_neg (by omega)]
        exact ⟨.inr hfirst, fun _ => hfirst⟩
      · rw [if_pos ⟨le_refl _, by omega⟩]
        exact ⟨.inr hfirst, fun _ => hfirst⟩
  · unfold arenaGetById
    by_cases hout : id < 0 ∨ t.numArenas ≤ id
    · rw [if_pos hout]
      refine ⟨.inl rfl, fun p hp he => ?_⟩
      have hbelow := h.below p hp
      omega
    · rw [if_neg hout]
      refine ⟨.inr (hslot id (by omega) (by omega)), fun p hp he => ?_⟩
      rw [← he, Int.toNat_natCast]
      exact h.slot p hp
  · have hfull : ∀ i ∈ List.range t.numArenas, t.arenas i ∈ t.made := fun i hi =>
      (h.full i (List.mem_range.mp hi)).1
    obtain ⟨r, hr, hlive, hfound⟩ := numaLoop_dense t hfull node
    refine ⟨r, hr, hlive, fun ⟨p, hp, he⟩ => hfound ⟨t.id p, ?_, ?_⟩⟩
    · exact List.mem_range.mpr (h.below p hp)
    · rw [h.slot p hp]
      exact he

/-- An arena that is destroyed before the last one leaves a hole, and a lookup runs into it. -/
theorem Dense.hole (h : t.Dense) {p : ℕ} (hp : p ∈ t.made) (hlast : t.id p + 1 ≠ t.numArenas) :
    ¬ (t.arenaDestroy p).TableOk := by
  have hz : p ≠ 0 := fun hz => h.nonNull (hz ▸ hp)
  have hbelow := h.below p hp
  have hbound := h.bound
  rw [arenaDestroy_eq hz (by omega), if_neg hlast]
  generalize ht : (⟨⟨Function.update t.arenas (t.id p) 0, t.numArenas, t.id, t.made.erase p⟩,
    t.numaNode⟩ : ArenaTable) = t'
  have hlen : t'.made.length ≤ MAX_ARENAS := by
    rw [← ht]
    exact List.length_erase_le.trans h.length_le
  have hhole : ∃ i ∈ List.range t'.numArenas, t'.arenas i ∉ t'.made := by
    rw [← ht]
    refine ⟨t.id p, List.mem_range.mpr hbelow, ?_⟩
    show Function.update t.arenas (t.id p) 0 (t.id p) ∉ t.made.erase p
    rw [Function.update_self]
    exact fun hmade => h.nonNull (List.mem_of_mem_erase hmade)
  intro hok
  obtain ⟨node, hint, hnode⟩ := exists_unused_node hlen t'.numaNode
  obtain ⟨r, hr, -⟩ := hok.byNumaNode node hint
  exact absurd (hr.symm.trans (numaLoop_hole t' hnode hhole)) (by simp)

end ArenaTable

/-- **The table of arenas** is as it should be, after any number of calls, exactly as long as each
arena that is destroyed is the last one of the table. -/
theorem arena_table_iff {ops : List TableOp}
    (hops : Runs.Each ArenaTable.step TableOp.Legal ArenaTable.init ops) :
    Runs.Always ArenaTable.step ArenaTable.TableOk ArenaTable.init ops ↔
      Runs.Each ArenaTable.step TableOp.FromEnd ArenaTable.init ops := by
  refine Runs.always_iff_each_of (fun _ _ h hlegal hend => ArenaTable.Dense.step h hlegal hend)
    (fun _ h => ArenaTable.Dense.tableOk h) (fun t op h hlegal hend => ?_) ArenaTable.Dense.init hops
  cases op with
  | create numaNode raw => exact absurd trivial hend
  | destroy p =>
    obtain ⟨hz, hlast⟩ := not_or.mp hend
    exact h.hole (hlegal.resolve_left hz) hlast

/-- Two arenas, destroyed from the end. -/
theorem arena_table_two : Runs.Always ArenaTable.step ArenaTable.TableOk ArenaTable.init
    [.create 0 64, .create 1 128, .destroy 128, .destroy 64] := by
  refine (@arena_table_iff [.create 0 64, .create 1 128, .destroy 128, .destroy 64]
    ⟨⟨⟨by decide, by decide⟩, by decide⟩, ⟨⟨by decide, by decide⟩, by decide⟩,
      .inr (by decide), .inr (by decide), trivial⟩).mpr ?_
  exact ⟨trivial, trivial, .inr (by decide), .inr (by decide), trivial⟩

/-- The first of two arenas is destroyed. -/
theorem first_arena_leaves_hole : ¬ ∀ ops : List TableOp,
    Runs.Each ArenaTable.step TableOp.Legal ArenaTable.init ops →
      Runs.Always ArenaTable.step ArenaTable.TableOk ArenaTable.init ops := by
  intro h
  have hok := h [.create 0 64, .create 0 128, .destroy 64]
    ⟨⟨⟨by decide, by decide⟩, by decide⟩, ⟨⟨by decide, by decide⟩, by decide⟩,
      .inr (by decide), trivial⟩
  obtain ⟨r, hr, -⟩ := hok.last.byNumaNode 1 ⟨by decide, by decide⟩
  cases hr

end Nomalloc
