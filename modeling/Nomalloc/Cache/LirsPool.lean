import Nomalloc.Cache.LirsManager

/-!
# The LIRS manager as a pool

A pointer that `lirs_manager_put` accepts is to be handed out again by `lirs_manager_get`, for a
size of the same class.  `lirs_manager_put` keeps it under itself as key; `lirs_manager_get` looks
for the size, cast to a pointer.

* `PoolSys`            a manager, with what it has accepted and what it has handed out;
* `BinOk.get_value`    what is found is the key that was looked for;
* `pool_serves_iff`    the manager is a pool exactly as long as each size is itself a pointer that is
                       there to be handed out, or there is none.
-/

namespace Nomalloc

/-- A manager, and the calls of `lirs_manager_put` that returned 0 and of `lirs_manager_get` that
returned a pointer, each with its size class. -/
structure PoolSys where
  manager : LirsManager
  accepted : List (ℕ × ℕ)
  handed : List (ℕ × ℕ)

inductive PoolOp where
  | put (ptr size : ℕ) (mem : Option ℕ)
  | get (size : ℕ)

namespace PoolSys

def put (s : PoolSys) (ptr size : ℕ) (mem : Option ℕ) : PoolSys :=
  let r := lirsManagerPut s.manager ptr size mem
  { s with
    manager := r.1
    accepted := if r.2 = 0 then (sizeToClass size, ptr) :: s.accepted else s.accepted }

def get (s : PoolSys) (size : ℕ) : PoolSys :=
  let r := lirsManagerGet s.manager size
  { s with
    manager := r.1
    handed := if r.2 ≠ 0 then (sizeToClass size, r.2) :: s.handed else s.handed }

def step (s : PoolSys) : PoolOp → PoolSys
  | .put ptr size mem => s.put ptr size mem
  | .get size => s.get size

/-- The pointer was accepted in the class, and not handed out for it, once more. -/
def Outstanding (s : PoolSys) (c ptr : ℕ) : Prop :=
  s.handed.count (c, ptr) < s.accepted.count (c, ptr)

/-- The pointer is still in its bin. -/
def Waiting (s : PoolSys) (c ptr : ℕ) : Prop :=
  s.manager.contains c ptr = true ∧ s.Outstanding c ptr

end PoolSys

/-- `malloc` answers with memory that is not in use. -/
def PoolOp.FreshMemory (s : PoolSys) : PoolOp → Prop
  | .put ptr size mem => (ManagerOp.put ptr size mem).Legal s.manager
  | .get _ => True

/-- What is asked of a pool: a pointer that is handed out is outstanding, and NULL is returned only
when no pointer is waiting. -/
def PoolOp.Served (s : PoolSys) : PoolOp → Prop
  | .put _ _ _ => True
  | .get size =>
    ((lirsManagerGet s.manager size).2 ≠ 0 →
      s.Outstanding (sizeToClass size) (lirsManagerGet s.manager size).2) ∧
    ((lirsManagerGet s.manager size).2 = 0 → ∀ ptr, ¬ s.Waiting (sizeToClass size) ptr)

/-- The size itself is a pointer that is waiting, or it is no pointer of the bin and none is
waiting. -/
def PoolOp.SizeWaits (s : PoolSys) : PoolOp → Prop
  | .put _ _ _ => True
  | .get size =>
    s.Waiting (sizeToClass size) size ∨
      s.manager.contains (sizeToClass size) size = false ∧
        ∀ ptr, ¬ s.Waiting (sizeToClass size) ptr

/-! ## what `lirs_manager_get` returns -/

section
variable {cache : LirsCache} {m m' : LirsManager} {s : PoolSys} {c key size ptr : ℕ}

/-- The value that `lirs_get` finds is the key. -/
theorem BinOk.get_value (h : BinOk cache) (key : ℕ) :
    (lirsGet cache key).2 = if lirsContains cache key then key else 0 := by
  rw [(h.ready.inv.get_spec h.ready.queue key).2]
  unfold lirsContains
  by_cases hk : key = 0
  · rw [if_pos hk, if_pos hk]
    rfl
  rw [if_neg hk, if_neg hk]
  cases hf : lirsFindBlock cache key with
  | none => rfl
  | some p =>
    obtain ⟨hp, hkey⟩ := h.ready.inv.find_some hf
    have hvalue : (cache.block p).value = key :=
      (Option.some.inj (h.keyed p hp)).symm.trans hkey
    dsimp only
    rw [hvalue]
    by_cases ht : (cache.block p).type = .hirNonResident
    · rw [if_pos ht, if_neg]
      rw [decide_eq_true_eq]
      exact not_not.mpr ht
    · rw [if_neg ht, if_pos (decide_eq_true ht)]

namespace LirsManager

/-- There is no cache for the large sizes. -/
def NoLarge (m : LirsManager) : Prop := ∀ c, isLargeClassIdx c = true → m.bins c = none

theorem NoLarge.init {ok : ℕ → Bool × Bool} (hm : lirsManagerInit ok = some m) : m.NoLarge := by
  intro c hc
  unfold lirsManagerInit at hm
  split_ifs at hm
  obtain rfl := Option.some.inj hm
  exact if_pos hc

theorem NoLarge.stepsBin {f : LirsCache → LirsCache} (h : m.NoLarge) (hs : StepsBin m m' c f) :
    m'.NoLarge := by
  intro i hi
  obtain he | ⟨hc, cache, -, he⟩ := hs
  · rw [he]
    exact h i hi
  · have hne : i ≠ c := by
      rintro rfl
      exact hc hi
    rw [he, setBin_other m hne]
    exact h i hi

theorem NoLarge.get (h : m.NoLarge) (size : ℕ) : (lirsManagerGet m size).1.NoLarge :=
  h.stepsBin (stepsBin_get m size)

theorem NoLarge.put (h : m.NoLarge) (ptr size : ℕ) (mem : Option ℕ) :
    (lirsManagerPut m ptr size mem).1.NoLarge :=
  h.stepsBin (stepsBin_put m ptr size mem)

/-- **`lirs_manager_get`** returns the size, if the bin contains it as a pointer, and NULL if not. -/
theorem get_value (h : m.Ok) (hlarge : m.NoLarge) (size : ℕ) :
    (lirsManagerGet m size).2 = if m.contains (sizeToClass size) size then size else 0 := by
  unfold lirsManagerGet contains
  dsimp only
  by_cases hl : isLargeClassIdx (sizeToClass size) = true
  · rw [if_pos hl, hlarge _ hl]
    rfl
  rw [if_neg hl]
  cases hbin : m.bins (sizeToClass size) with
  | none => rfl
  | some cache => exact (h _ cache hbin).get_value size

theorem contains_zero (m : LirsManager) (c : ℕ) : m.contains c 0 = false := by
  unfold contains
  cases m.bins c <;> rfl

end LirsManager

/-! ## runs -/

namespace PoolSys

/-- What every run keeps. -/
structure Inv (s : PoolSys) : Prop where
  ok : s.manager.Ok
  large : s.manager.NoLarge

theorem Inv.step (h : s.Inv) (op : PoolOp) (hop : op.FreshMemory s) : (s.step op).Inv := by
  cases op with
  | put ptr size mem => exact ⟨h.ok.put ptr size hop, h.large.put ptr size mem⟩
  | get size => exact ⟨h.ok.get size, h.large.get size⟩

/-- **One call** serves exactly when the size waits. -/
theorem Inv.served_iff (h : s.Inv) (op : PoolOp) : op.Served s ↔ op.SizeWaits s := by
  cases op with
  | put ptr size mem => exact Iff.rfl
  | get size =>
    show (_ → s.Outstanding _ _) ∧ (_ → _) ↔ _
    rw [LirsManager.get_value h.ok h.large]
    show _ ↔ s.Waiting _ _ ∨ _
    by_cases hc : s.manager.contains (sizeToClass size) size = true
    · have hne : size ≠ 0 := by
        rintro rfl
        rw [LirsManager.contains_zero] at hc
        exact Bool.false_ne_true hc
      rw [if_pos hc]
      constructor
      · exact fun hserved => Or.inl ⟨hc, hserved.1 hne⟩
      · rintro (hwaits | ⟨hnot, -⟩)
        · exact ⟨fun _ => hwaits.2, fun h0 => absurd h0 hne⟩
        · exact absurd (hnot.symm.trans hc) Bool.false_ne_true
    · rw [if_neg hc]
      constructor
      · exact fun hserved => Or.inr ⟨Bool.eq_false_iff.mpr hc, hserved.2 rfl⟩
      · rintro (hwaits | ⟨-, hnone⟩)
        · exact absurd hwaits.1 hc
        · exact ⟨fun h0 => absurd rfl h0, fun _ => hnone⟩

end PoolSys

end

/-- **The manager is a pool** exactly as long as each size that is asked for is itself a pointer
waiting in its bin, or is none and no pointer is waiting there. -/
theorem pool_serves_iff {ok : ℕ → Bool × Bool} {m : LirsManager} {ops : List PoolOp}
    (hm : lirsManagerInit ok = some m)
    (hops : Runs.Each PoolSys.step PoolOp.FreshMemory ⟨m, [], []⟩ ops) :
    Runs.Each PoolSys.step PoolOp.Served ⟨m, [], []⟩ ops ↔
      Runs.Each PoolSys.step PoolOp.SizeWaits ⟨m, [], []⟩ ops := by
  have hinv : PoolSys.Inv ⟨m, [], []⟩ := ⟨LirsManager.Ok.init hm, LirsManager.NoLarge.init hm⟩
  exact Runs.each_iff_each_of (fun s op (h : s.Inv) hop => h.step op hop)
    (fun _ op h _ => h.served_iff op) hinv hops

/-- A pointer is put into a fresh manager, and a size of its class asked for. -/
theorem freshManager_pool (ptr size : ℕ) (mem : Option ℕ) :
    Runs.Each PoolSys.step PoolOp.FreshMemory ⟨freshManager, [], []⟩
      [.put ptr size mem, .get size] :=
  ⟨(freshManager_put ptr size mem).1, trivial, trivial⟩

/-- The pointer 8 is handed out for eight bytes. -/
theorem pool_serves_eight : Runs.Each PoolSys.step PoolOp.Served ⟨freshManager, [], []⟩
    [.put 8 8 (some 100), .get 8] := by
  refine (pool_serves_iff lirsManagerInit_given (freshManager_pool _ _ _)).mpr
    ⟨trivial, Or.inl ⟨by decide +kernel, ?_⟩, trivial⟩
  unfold PoolSys.Outstanding
  decide +kernel

/-- A block of 64 bytes is put, and 64 bytes asked for: NULL is returned. -/
theorem sixty_four_not_served :
    lirsManagerInit (fun _ => (true, true)) = some freshManager ∧
    Runs.Each PoolSys.step PoolOp.FreshMemory ⟨freshManager, [], []⟩
      [.put 0x200640 64 (some 100), .get 64] ∧
    ¬ Runs.Each PoolSys.step PoolOp.Served ⟨freshManager, [], []⟩
      [.put 0x200640 64 (some 100), .get 64] := by
  refine ⟨lirsManagerInit_given, freshManager_pool _ _ _, fun h => ?_⟩
  have hnull : (lirsManagerGet (PoolSys.put ⟨freshManager, [], []⟩ 0x200640 64 (some 100)).manager
    64).2 = 0 := by decide +kernel
  refine h.2.1.2 hnull 0x200640 ⟨by decide +kernel, ?_⟩
  unfold PoolSys.Outstanding
  decide +kernel

end Nomalloc
