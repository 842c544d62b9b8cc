import Nomalloc.Cache.LirsPointers

/-!
# The pointers of the LIRS cache stand for its lists

* `Stands m S Q T`   the circular lists of `m` have the blocks `S` and `Q`, its chains are `T`;
* `Simulates m c`    and the other fields are those of `c`;
* `Simulates.delS`, `Simulates.addS`, … one lemma for each store, under the condition that
  `LirsShape` gives for it;
* `simulates_pruneSStack`, … one for each function, the loops with the rounds they need;
* `lirs_pointers_run`   over every run from `lirs_create` the functions on pointers return, and return
  what the functions on lists do.
-/

namespace Nomalloc

/-- The nodes on each of the two lists. -/
def listNodes (S Q : List ℕ) : LirsList → List LirsNode
  | .sStack => S.map (.item .sStack)
  | .qQueue => Q.map (.item .qQueue)

/-- The lists and chains in memory. -/
structure Stands (m : LirsMem) (S Q : List ℕ) (T : ℕ → List ℕ) : Prop where
  lists : CircLists m.links LirsNode.head (listNodes S Q)
  chains : HashChains m.chains T

/-- The cache on lists that has these lists and the fields of `m`. -/
def LirsMem.view (m : LirsMem) (S Q : List ℕ) (T : ℕ → List ℕ) : LirsCache :=
  { capacity := m.capacity
    hirCapacity := m.hirCapacity
    maxSize := m.maxSize
    sStack := S
    qQueue := Q
    sStackSize := m.sStackSize
    qQueueSize := m.qQueueSize
    hashTable := T
    hashTableMask := m.hashTableMask
    stats := m.stats
    currentTime := m.currentTime
    evictCallback := m.evictCallback
    evicted := m.evicted
    block := m.block
    heap := m.heap }

/-- **The relation between the two levels.** -/
def Simulates (m : LirsMem) (c : LirsCache) : Prop :=
  ∃ S Q T, Stands m S Q T ∧ c = m.view S Q T

section
variable {S Q : List ℕ} {k j : LirsList} {p : ℕ}

theorem item_injective (k : LirsList) : Function.Injective (LirsNode.item k) := fun _ _ h =>
  (LirsNode.item.inj h).2

theorem item_mem_listNodes : LirsNode.item k p ∈ listNodes S Q j ↔
    k = j ∧ (k = .sStack ∧ p ∈ S ∨ k = .qQueue ∧ p ∈ Q) := by
  cases j <;> cases k <;> simp [listNodes]

theorem head_notMem_listNodes : LirsNode.head k ∉ listNodes S Q j := by
  cases j <;> simp [listNodes]

/-- A node of a block is on a list when the block is. -/
theorem item_notMem (hS : k = .sStack → p ∉ S) (hQ : k = .qQueue → p ∉ Q) :
    ∀ j, LirsNode.item k p ∉ LirsNode.head j :: listNodes S Q j := by
  intro j hin
  rcases List.mem_cons.mp hin with he | hin
  · exact LirsNode.noConfusion he
  · obtain ⟨-, ⟨hk, hp⟩ | ⟨hk, hp⟩⟩ := item_mem_listNodes.mp hin
    · exact hS hk hp
    · exact hQ hk hp

theorem listNodes_eraseS (S Q : List ℕ) (p : ℕ) :
    (fun j => (listNodes S Q j).erase (.item .sStack p)) = listNodes (S.erase p) Q := by
  funext j
  cases j with
  | sStack => exact (List.map_erase (item_injective .sStack) S).symm
  | qQueue => exact List.erase_of_not_mem (by simp [listNodes])

theorem listNodes_eraseQ (S Q : List ℕ) (p : ℕ) :
    (fun j => (listNodes S Q j).erase (.item .qQueue p)) = listNodes S (Q.erase p) := by
  funext j
  cases j with
  | sStack => exact List.erase_of_not_mem (by simp [listNodes])
  | qQueue => exact (List.map_erase (item_injective .qQueue) Q).symm

theorem listNodes_pushS (S Q : List ℕ) (p : ℕ) :
    (fun j => putBehind (.head j) (.head .sStack) (.item .sStack p) (listNodes S Q j)) =
      listNodes (p :: S) Q := by
  funext j
  cases j with
  | sStack => exact putBehind_head ..
  | qQueue => exact putBehind_of_notMem (by simp [listNodes]) _

theorem listNodes_pushQ (S Q : List ℕ) (p : ℕ) :
    (fun j => putBefore (.head j) (.head .qQueue) (.item .qQueue p) (listNodes S Q j)) =
      listNodes S (Q ++ [p]) := by
  funext j
  cases j with
  | sStack => exact putBefore_of_notMem (by simp [listNodes]) _
  | qQueue =>
    rw [putBefore_head head_notMem_listNodes]
    simp [listNodes]

end

/-! ## stores -/

namespace Stands

variable {m : LirsMem} {S Q : List ℕ} {T : ℕ → List ℕ} {p : ℕ}

theorem delS (h : Stands m S Q T) (hp : p ∈ S) : Stands (m.delS p) (S.erase p) Q T := by
  refine ⟨?_, h.chains⟩
  have hmem : LirsNode.item .sStack p ∈ listNodes S Q .sStack := List.mem_map_of_mem hp
  rw [← listNodes_eraseS]
  exact (listDel_keeps h.lists hmem).1

theorem delQ (h : Stands m S Q T) (hp : p ∈ Q) : Stands (m.delQ p) S (Q.erase p) T := by
  refine ⟨?_, h.chains⟩
  have hmem : LirsNode.item .qQueue p ∈ listNodes S Q .qQueue := List.mem_map_of_mem hp
  rw [← listNodes_eraseQ]
  exact (listDel_keeps h.lists hmem).1

theorem addS (h : Stands m S Q T) (hp : p ∉ S) : Stands (m.addS p) (p :: S) Q T := by
  refine ⟨?_, h.chains⟩
  rw [← listNodes_pushS]
  exact listAdd_keeps h.lists (item_notMem (fun _ => hp) nofun) ⟨.sStack, List.mem_cons_self⟩

theorem addQ (h : Stands m S Q T) (hp : p ∉ Q) : Stands (m.addQ p) S (Q ++ [p]) T := by
  refine ⟨?_, h.chains⟩
  rw [← listNodes_pushQ]
  exact listAddTail_keeps h.lists (item_notMem nofun fun _ => hp) ⟨.qQueue, List.mem_cons_self⟩

theorem moveS (h : Stands m S Q T) (hS : S.Nodup) (hp : p ∈ S) :
    Stands (m.moveS p) (p :: S.erase p) Q T := by
  have hdel := h.delS hp
  have hoff : p ∉ S.erase p := fun hin => (hS.mem_erase_iff.mp hin).1 rfl
  exact ⟨(hdel.addS hoff).lists, h.chains⟩

/-- Stores to other fields of the cache and of its blocks. -/
theorem congr (h : Stands m S Q T) {m' : LirsMem} (hlinks : m'.links = m.links)
    (hchains : m'.chains = m.chains) : Stands m' S Q T :=
  ⟨hlinks ▸ h.lists, hchains ▸ h.chains⟩

theorem removeHash (h : Stands m S Q T) {i : ℕ} (hp : p ∈ T i) :
    Stands (m.removeHash p) S Q fun i => (T i).erase p := by
  have hchains : HashChains m.chains (m.view S Q T).hashTable := h.chains
  have hcut : HashChains (hlistDel m.chains p) (lirsRemoveHash (m.view S Q T) p).hashTable :=
    lirsRemoveHash_chains hchains hp
  exact ⟨h.lists, hcut⟩

theorem insertHash (h : Stands m S Q T) (hp : ∀ i, p ∉ T i) :
    Stands (m.insertHash p) S Q
      (Function.update T (m.bucket (m.block p).key) (p :: T (m.bucket (m.block p).key))) := by
  have hchains : HashChains m.chains (m.view S Q T).hashTable := h.chains
  have hput : HashChains
      (hlistAddHead m.chains p ((m.view S Q T).bucket ((m.view S Q T).block p).key))
      (lirsInsertHash (m.view S Q T) p).hashTable := lirsInsertHash_chains hchains hp
  exact ⟨h.lists, hput⟩

/-- A new block: its nodes are on no list. -/
theorem blockCreate (h : Stands m S Q T) (hS : p ∉ S) (hQ : p ∉ Q) (hT : ∀ i, p ∉ T i)
    (key value size : ℕ) : Stands (m.blockCreate p key value size) S Q T := by
  refine ⟨?_, ?_⟩
  · have h1 := h.lists.init_other (item_notMem (k := .sStack) (p := p) (fun _ => hS) nofun)
    exact h1.init_other (item_notMem (k := .qQueue) (p := p) nofun fun _ => hQ)
  · refine ⟨fun i => (h.chains.chain i).congr ?_ (fun n hn => ?_) fun n hn => ?_, h.chains.once,
      h.chains.apart, h.chains.noFault⟩
    · simp [LirsMem.blockCreate, initHlistNode]
    · have hne : n ≠ p := fun he => hT i (he ▸ hn)
      simp [LirsMem.blockCreate, initHlistNode, hne]
    · have hne : n ≠ p := fun he => hT i (he ▸ hn)
      simp [LirsMem.blockCreate, initHlistNode, hne]

end Stands

namespace Simulates

variable {m : LirsMem} {c : LirsCache} {p : ℕ}

/-! ## reading -/

theorem block (h : Simulates m c) : m.block = c.block := by
  obtain ⟨S, Q, T, -, rfl⟩ := h
  rfl

theorem heap (h : Simulates m c) : m.heap = c.heap := by
  obtain ⟨S, Q, T, -, rfl⟩ := h
  rfl

theorem full (h : Simulates m c) (size : ℕ) : m.full size = c.full size := by
  obtain ⟨S, Q, T, -, rfl⟩ := h
  rfl

theorem sEmpty (h : Simulates m c) : listEmpty m.links (.head .sStack) = c.sStack.isEmpty := by
  obtain ⟨S, Q, T, hs, rfl⟩ := h
  rw [Bool.eq_iff_iff, (hs.lists.circ .sStack).listEmpty_iff, List.isEmpty_iff]
  exact List.map_eq_nil_iff

theorem qEmpty (h : Simulates m c) : listEmpty m.links (.head .qQueue) = c.qQueue.isEmpty := by
  obtain ⟨S, Q, T, hs, rfl⟩ := h
  rw [Bool.eq_iff_iff, (hs.lists.circ .qQueue).listEmpty_iff, List.isEmpty_iff]
  exact List.map_eq_nil_iff

/-- `list_last_entry` of S -/
theorem last (h : Simulates m c) :
    (m.links.prev (.head .sStack)).bind LirsNode.entry = c.sStack.getLast? := by
  obtain ⟨S, Q, T, hs, rfl⟩ := h
  rw [(hs.lists.circ .sStack).head_prev]
  show (LirsNode.head .sStack :: S.map (LirsNode.item .sStack)).getLast?.bind _ = S.getLast?
  rcases List.eq_nil_or_concat' S with rfl | ⟨as, q, rfl⟩
  · rfl
  · rw [List.map_append, List.map_singleton, ← List.cons_append, List.getLast?_concat,
      List.getLast?_concat]
    rfl

/-- `list_first_entry` of Q -/
theorem first (h : Simulates m c) :
    (m.links.next (.head .qQueue)).bind LirsNode.entry = c.qQueue.head? := by
  obtain ⟨S, Q, T, hs, rfl⟩ := h
  rw [(hs.lists.circ .qQueue).head_next]
  show (Q.map (LirsNode.item .qQueue) ++ [LirsNode.head .qQueue]).head?.bind _ = Q.head?
  cases Q with
  | nil => rfl
  | cons q Q => rfl

theorem findLoop_eq {key : ℕ} {s : Slot ℕ ℕ} {ns : List ℕ} (h : HashChain m.chains s ns) {n : ℕ}
    (hn : ns.length < n) :
    m.findLoop key n (m.chains.ptr s) = some (ns.find? fun p => (m.block p).key = key) := by
  induction ns generalizing s n with
  | nil =>
    obtain ⟨n, rfl⟩ := Nat.exists_eq_add_of_lt hn
    rw [h.ptr_eq]
    rfl
  | cons q ns ih =>
    obtain ⟨n, rfl⟩ : ∃ k, n = k + 1 := ⟨n - 1, by omega⟩
    obtain ⟨hq, -, hrest⟩ := hashChain_cons.mp h
    rw [List.length_cons] at hn
    rw [hq]
    unfold LirsMem.findLoop
    by_cases hk : (m.block q).key = key
    · rw [if_pos hk, List.find?_cons_of_pos (by simpa using hk)]
    · rw [if_neg hk, List.find?_cons_of_neg (by simpa using hk)]
      exact ih hrest (by omega)

/-- `lirs_find_block` -/
theorem findBlock (h : Simulates m c) (hinv : LirsShape c) (key : ℕ) {rounds : ℕ}
    (hrounds : c.heap.length < rounds) :
    m.findBlock key rounds = some (lirsFindBlock c key) := by
  have hle : (c.hashTable (c.bucket key)).length ≤ c.heap.length :=
    ((hinv.bucketNodup _).subperm fun q hq => ((hinv.bucket _ q).mp hq).1).length_le
  obtain ⟨S, Q, T, hs, rfl⟩ := h
  exact findLoop_eq (hs.chains.chain _) (Nat.lt_of_le_of_lt hle hrounds)

/-! ## storing -/

theorem withStats (h : Simulates m c) (stats : LirsStats) :
    Simulates { m with stats := stats } { c with stats := stats } := by
  obtain ⟨S, Q, T, hs, rfl⟩ := h
  exact ⟨S, Q, T, hs.congr rfl rfl, rfl⟩

theorem stats (h : Simulates m c) : m.stats = c.stats := by
  obtain ⟨S, Q, T, -, rfl⟩ := h
  rfl

theorem delS (h : Simulates m c) (hp : p ∈ c.sStack) : Simulates (m.delS p) (c.delS p) := by
  obtain ⟨S, Q, T, hs, rfl⟩ := h
  exact ⟨_, _, _, hs.delS hp, rfl⟩

theorem delQ (h : Simulates m c) (hp : p ∈ c.qQueue) : Simulates (m.delQ p) (c.delQ p) := by
  obtain ⟨S, Q, T, hs, rfl⟩ := h
  exact ⟨_, _, _, hs.delQ hp, rfl⟩

theorem addS (h : Simulates m c) (hp : p ∉ c.sStack) : Simulates (m.addS p) (c.addS p) := by
  obtain ⟨S, Q, T, hs, rfl⟩ := h
  exact ⟨_, _, _, hs.addS hp, rfl⟩

theorem moveS (h : Simulates m c) (hnd : c.sStack.Nodup) (hp : p ∈ c.sStack) :
    Simulates (m.moveS p) (c.moveS p) := by
  obtain ⟨S, Q, T, hs, rfl⟩ := h
  exact ⟨_, _, _, hs.moveS hnd hp, rfl⟩

theorem removeHash (h : Simulates m c) {i : ℕ} (hp : p ∈ c.hashTable i) :
    Simulates (m.removeHash p) (lirsRemoveHash c p) := by
  obtain ⟨S, Q, T, hs, rfl⟩ := h
  exact ⟨_, _, _, hs.removeHash hp, rfl⟩

theorem insertHash (h : Simulates m c) (hp : ∀ i, p ∉ c.hashTable i) :
    Simulates (m.insertHash p) (lirsInsertHash c p) := by
  obtain ⟨S, Q, T, hs, rfl⟩ := h
  exact ⟨_, _, _, hs.insertHash hp, rfl⟩

theorem blockDestroy (h : Simulates m c) (p : ℕ) :
    Simulates (m.blockDestroy p) (lirsBlockDestroy c p) := by
  obtain ⟨S, Q, T, hs, rfl⟩ := h
  exact ⟨S, Q, T, hs.congr rfl rfl, rfl⟩

theorem blockCreate (h : Simulates m c) (hS : p ∉ c.sStack) (hQ : p ∉ c.qQueue)
    (hT : ∀ i, p ∉ c.hashTable i) (key value size : ℕ) :
    Simulates (m.blockCreate p key value size) (lirsBlockCreate c p key value size) := by
  obtain ⟨S, Q, T, hs, rfl⟩ := h
  exact ⟨S, Q, T, hs.blockCreate hS hQ hT key value size, rfl⟩

/-! ## pruning and evicting -/

/-- A block of the cache is in its bucket. -/
theorem inBucket (hinv : LirsShape c) (hp : p ∈ c.heap) : ∃ i, p ∈ c.hashTable i :=
  ⟨_, (hinv.bucket _ p).mpr ⟨hp, rfl⟩⟩

/-- A block is taken out of the table and freed. -/
theorem destroy (h : Simulates m c) (hp : ∃ i, p ∈ c.hashTable i) :
    Simulates ((m.removeHash p).blockDestroy p) (lirsBlockDestroy (lirsRemoveHash c p) p) := by
  obtain ⟨i, hp⟩ := hp
  exact (h.removeHash hp).blockDestroy p

theorem ite {b b' : Bool} {m' : LirsMem} {c' : LirsCache} (hb : b = b')
    (h : b = true → Simulates m c) (h' : b = false → Simulates m' c') :
    Simulates (if b then m else m') (if b' then c else c') := by
  subst hb
  cases b with
  | true => exact h rfl
  | false => exact h' rfl

theorem pruneBottom (h : Simulates m c) (hinv : LirsShape c) (hp : p ∈ c.sStack) :
    Simulates (m.pruneBottom p) (lirsPruneBottom c p) := by
  have hdel := h.delS hp
  have hin := inBucket hinv (hinv.mem_heap_of_s hp)
  have htable : ∃ i, p ∈ (c.delS p).hashTable i := hin
  unfold LirsMem.pruneBottom lirsPruneBottom
  dsimp only
  rw [hdel.block]
  by_cases ht : ((c.delS p).block p).type = .hirNonResident
  · rw [if_pos ht, if_pos ht]
    exact hdel.destroy htable
  · rw [if_neg ht, if_neg ht]
    exact hdel

theorem pruneLoop (h : Simulates m c) (hinv : LirsInv c) {n k : ℕ} (hn : c.sStack.length < n)
    (hk : c.sStack.length ≤ k) :
    ∃ m', LirsMem.pruneSStack n m = some m' ∧ Simulates m' (lirsPruneLoop k c) := by
  induction n generalizing m c k with
  | zero => exact absurd hn (Nat.not_lt_zero _)
  | succ n ih =>
    unfold LirsMem.pruneSStack
    rw [h.sEmpty]
    cases hl : c.sStack.getLast? with
    | none =>
      have hnil := List.getLast?_eq_none_iff.mp hl
      have hloop : lirsPruneLoop k c = c := by
        cases k with
        | zero => rfl
        | succ k =>
          unfold lirsPruneLoop
          rw [hl]
      rw [if_pos (by rw [hnil]; rfl), hloop]
      exact ⟨m, rfl, h⟩
    | some bottom =>
      have hp := List.mem_of_getLast? hl
      have hne : c.sStack ≠ [] := List.ne_nil_of_mem hp
      have hpos := List.length_pos_of_mem hp
      obtain ⟨k, rfl⟩ : ∃ j, k = j + 1 := ⟨k - 1, by omega⟩
      rw [if_neg (by simpa using hne), h.last, hl, h.block]
      unfold lirsPruneLoop
      rw [hl]
      dsimp only
      by_cases hstop : (c.block bottom).type = .lir ∧ (c.block bottom).inSStack = true
      · rw [if_pos hstop, if_pos hstop]
        exact ⟨m, rfl, h⟩
      · rw [if_neg hstop, if_neg hstop]
        have hflag := ((hinv.shape.sFlag bottom).mp hp).2
        have hnl : (c.block bottom).type ≠ .lir := fun he => hstop ⟨he, hflag⟩
        obtain ⟨hinv', -, hs⟩ := hinv.pruneBottom hl hnl
        have hlen : (lirsPruneBottom c bottom).sStack.length + 1 = c.sStack.length := by
          rw [hs, List.length_erase_of_mem hp]
          omega
        exact ih (h.pruneBottom hinv.shape hp) hinv' (by omega) (by omega)

/-- `lirs_prune_s_stack` -/
theorem prune (h : Simulates m c) (hinv : LirsInv c) {rounds : ℕ}
    (hrounds : c.sStack.length < rounds) :
    ∃ m', LirsMem.pruneSStack rounds m = some m' ∧ Simulates m' (lirsPruneSStack c) :=
  h.pruneLoop hinv hrounds (Nat.le_refl _)

theorem evictHead (h : Simulates m c) (hinv : LirsShape c) (hp : p ∈ c.qQueue) :
    Simulates (m.evictHead p) (lirsEvictHead c p) := by
  have htable := inBucket hinv (hinv.mem_heap_of_q hp)
  obtain ⟨S, Q, T, hs, rfl⟩ := h
  unfold LirsMem.evictHead lirsEvictHead
  dsimp only
  refine ite rfl (fun _ => destroy ?_ htable) fun _ => ?_
  all_goals exact ⟨S, Q.erase p, T, (hs.delQ hp).congr rfl rfl, rfl⟩

theorem evictLoop (h : Simulates m c) (hinv : LirsInv c) {n k : ℕ} (hn : c.qQueue.length < n)
    (hk : c.qQueue.length ≤ k) :
    ∃ m', LirsMem.evictHir n m = some m' ∧ Simulates m' (lirsEvictLoop k c) := by
  induction n generalizing m c k with
  | zero => exact absurd hn (Nat.not_lt_zero _)
  | succ n ih =>
    have hover : decide (m.hirCapacity < m.qQueueSize) = decide (c.hirCapacity < c.qQueueSize) := by
      obtain ⟨S, Q, T, -, rfl⟩ := h
      rfl
    unfold LirsMem.evictHir
    rw [h.qEmpty, h.first, hover]
    cases hq : c.qQueue with
    | nil =>
      have hloop : lirsEvictLoop k c = c := by
        cases k with
        | zero => rfl
        | succ k =>
          unfold lirsEvictLoop
          rw [hq]
          rfl
      rw [if_neg (by simp), hloop]
      exact ⟨m, rfl, h⟩
    | cons q rest =>
      have hp : q ∈ c.qQueue := by
        rw [hq]
        exact List.mem_cons_self
      have hpos := List.length_pos_of_mem hp
      obtain ⟨k, rfl⟩ : ∃ j, k = j + 1 := ⟨k - 1, by omega⟩
      unfold lirsEvictLoop
      rw [hq]
      simp only [List.head?_cons, List.isEmpty_cons, Bool.not_false, Bool.true_and,
        decide_eq_true_eq]
      by_cases hmore : c.hirCapacity < c.qQueueSize
      · rw [if_pos hmore, if_pos hmore]
        obtain ⟨hinv', hrest, -⟩ := hinv.evictHead hq
        rw [hq, List.length_cons] at hn hk
        exact ih (h.evictHead hinv.shape hp) hinv' (by rw [hrest]; omega) (by rw [hrest]; omega)
      · rw [if_neg hmore, if_neg hmore]
        exact ⟨m, rfl, h⟩

/-- `lirs_evict_hir` -/
theorem evict (h : Simulates m c) (hinv : LirsInv c) {rounds : ℕ}
    (hrounds : c.qQueue.length < rounds) :
    ∃ m', LirsMem.evictHir rounds m = some m' ∧ Simulates m' (lirsEvictHir c) :=
  h.evictLoop hinv hrounds (Nat.le_refl _)

/-! ## promotion and demotion -/

/-- `lirs_demote_lir` of a block whose flag says whether it is on Q. -/
theorem demoteLir (h : Simulates m c) (hinv : LirsShape c) (hp : p ∈ c.heap) :
    Simulates (m.demoteLir p) (lirsDemoteLir c p) := by
  have hflag : (c.block p).inQQueue = false → p ∉ c.qQueue := by
    intro hf hin
    rw [((hinv.qFlag p).mp hin).2] at hf
    cases hf
  obtain ⟨S, Q, T, hs, rfl⟩ := h
  unfold LirsMem.demoteLir lirsDemoteLir
  dsimp only
  refine ite rfl (fun hb => ?_) fun _ => ⟨S, Q, T, hs.congr rfl rfl, rfl⟩
  have hb' : ((m.setType p .hirResident).block p).inQQueue = false := by simpa using hb
  have hq : p ∉ Q := by
    refine hflag ?_
    rw [← hb']
    simp [LirsMem.view, LirsMem.setType, LirsMem.setBlock]
  exact ⟨S, Q ++ [p], T, (hs.addQ hq).congr rfl rfl, rfl⟩

theorem promoteBlock (h : Simulates m c) (hinv : LirsShape c) (hp : p ∈ c.heap) :
    Simulates (m.promoteBlock p) (lirsPromoteBlock c p) := by
  have hflag : (c.block p).inQQueue = true → p ∈ c.qQueue := fun hf => (hinv.qFlag p).mpr ⟨hp, hf⟩
  obtain ⟨S, Q, T, hs, rfl⟩ := h
  unfold LirsMem.promoteBlock lirsPromoteBlock
  dsimp only
  refine ite rfl (fun hb => ?_) fun _ => ⟨S, Q, T, hs.congr rfl rfl, rfl⟩
  have hq : p ∈ Q := by
    refine hflag ?_
    rw [← hb]
    simp [LirsMem.view, LirsMem.setType, LirsMem.setBlock]
  exact ⟨S, Q.erase p, T, (hs.delQ hq).congr rfl rfl, rfl⟩

/-- S is not empty, so the code finds a block at its bottom. -/
theorem demoteBottom (h : Simulates m c) (hinv : LirsInv c) (hne : c.sStack ≠ []) :
    ∃ m', m.demoteBottom = some m' ∧ Simulates m' (lirsDemoteBottom c) := by
  unfold LirsMem.demoteBottom lirsDemoteBottom
  rw [h.last]
  obtain ⟨q, hl⟩ : ∃ q, c.sStack.getLast? = some q := ⟨_, List.getLast?_eq_some_getLast hne⟩
  have hp := List.mem_of_getLast? hl
  rw [hl, Option.map_some, h.block]
  dsimp only
  refine ⟨_, rfl, ?_⟩
  by_cases ht : (c.block q).type = .lir
  · rw [if_pos ht, if_pos ht]
    obtain ⟨-, -, -, hs, -⟩ := hinv.demoteLir hp ht
    have hp' : q ∈ (lirsDemoteLir c q).sStack := by
      rw [hs]
      exact hp
    exact (h.demoteLir hinv.shape (hinv.shape.mem_heap_of_s hp)).delS hp'
  · rw [if_neg ht, if_neg ht]
    exact h

/-! ## rounds -/

theorem sLength_le (hinv : LirsShape c) : c.sStack.length ≤ c.heap.length :=
  (hinv.sNodup.subperm fun _ hp => hinv.mem_heap_of_s hp).length_le

theorem qLength_le (hinv : LirsShape c) : c.qQueue.length ≤ c.heap.length :=
  (hinv.qNodup.subperm fun _ hp => hinv.mem_heap_of_q hp).length_le

theorem heap_prune_le (n : ℕ) (c : LirsCache) :
    (lirsPruneLoop n c).heap.length ≤ c.heap.length := by
  induction n generalizing c with
  | zero => exact Nat.le_refl _
  | succ n ih =>
    have hround : ∀ q, (lirsPruneBottom c q).heap.length ≤ c.heap.length := by
      intro q
      unfold lirsPruneBottom
      dsimp only
      split
      · exact List.length_erase_le
      · exact Nat.le_refl _
    unfold lirsPruneLoop
    split
    · exact Nat.le_refl _
    · split
      · exact Nat.le_refl _
      · exact (ih _).trans (hround _)

theorem heap_evict_le (n : ℕ) (c : LirsCache) :
    (lirsEvictLoop n c).heap.length ≤ c.heap.length := by
  induction n generalizing c with
  | zero => exact Nat.le_refl _
  | succ n ih =>
    have hround : ∀ q, (lirsEvictHead c q).heap.length ≤ c.heap.length := by
      intro q
      unfold lirsEvictHead
      dsimp only
      split
      · exact List.length_erase_le
      · exact Nat.le_refl _
    unfold lirsEvictLoop
    split
    · exact Nat.le_refl _
    · split
      · exact (ih _).trans (hround _)
      · exact Nat.le_refl _

/-! ## `lirs_get` -/

section
variable {rounds : ℕ}

/-- `lirs_promote_hir` of a block on S -/
theorem promoteHir (h : Simulates m c) (hinv : LirsInv c) (hs : p ∈ c.sStack)
    (ht : (c.block p).type = .hirResident) (hrounds : c.heap.length < rounds) :
    ∃ m', m.promoteHir p rounds = some m' ∧ Simulates m' (lirsPromoteHir c p) := by
  obtain ⟨hA, -, -, hAs, -, hAheap, -⟩ := hinv.promoteBlock hs ht
  obtain ⟨hB, -, hBheap, -⟩ := hA.demoteBottom
  have hne : (lirsPromoteBlock c p).sStack ≠ [] := by
    rw [hAs]
    exact List.ne_nil_of_mem hs
  have h1 := h.promoteBlock hinv.shape (hinv.shape.mem_heap_of_s hs)
  obtain ⟨m2, hm2, h2⟩ := h1.demoteBottom hA hne
  have hlen : (lirsDemoteBottom (lirsPromoteBlock c p)).heap.length < rounds := by
    rw [hBheap, hAheap]
    exact hrounds
  obtain ⟨m3, hm3, h3⟩ := h2.prune hB (Nat.lt_of_le_of_lt (sLength_le hB.shape) hlen)
  have hC := hB.prune.1
  have hlen3 : (lirsPruneSStack (lirsDemoteBottom (lirsPromoteBlock c p))).heap.length < rounds :=
    Nat.lt_of_le_of_lt (heap_prune_le _ _) hlen
  obtain ⟨m4, hm4, h4⟩ := h3.evict hC (Nat.lt_of_le_of_lt (qLength_le hC.shape) hlen3)
  refine ⟨m4, ?_, h4⟩
  unfold LirsMem.promoteHir
  rw [hm2, Option.bind_some, hm3, Option.bind_some, hm4]

/-- The block goes to the top of S, or stays there. -/
theorem toTop (h : Simulates m c) (hinv : LirsShape c) (hp : p ∈ c.heap) :
    Simulates (if (m.block p).inSStack then m.moveS p else m.addS p)
      (if (c.block p).inSStack then c.moveS p else c.addS p) := by
  refine ite (by rw [h.block]) (fun hb => ?_) fun hb => ?_ <;> rw [h.block] at hb
  · exact h.moveS hinv.sNodup ((hinv.sFlag p).mpr ⟨hp, hb⟩)
  · refine h.addS fun hin => ?_
    rw [((hinv.sFlag p).mp hin).2] at hb
    cases hb

theorem getLir (h : Simulates m c) (hinv : LirsInv c) (hp : p ∈ c.heap)
    (hrounds : c.heap.length < rounds) :
    ∃ m', m.getLir p rounds = some m' ∧ Simulates m' (lirsGetLir c p) := by
  have h1 := h.withStats { c.stats with hits := c.stats.hits + 1 }
  have hinv1 : LirsInv { c with stats := { c.stats with hits := c.stats.hits + 1 } } :=
    hinv.withStats rfl rfl
  have h2 := h1.toTop hinv1.shape hp
  have hinv2 := hinv1.toTop hp
  have hheap : (if (c.block p).inSStack then
      ({ c with stats := { c.stats with hits := c.stats.hits + 1 } } : LirsCache).moveS p
      else ({ c with stats := { c.stats with hits := c.stats.hits + 1 } } : LirsCache).addS p).heap =
      c.heap := by
    split <;> rfl
  unfold LirsMem.getLir lirsGetLir
  rw [h.stats]
  refine h2.prune hinv2 (Nat.lt_of_le_of_lt (sLength_le hinv2.shape) ?_)
  exact hheap.symm ▸ hrounds

theorem heap_toTop (c : LirsCache) (p : ℕ) :
    (if (c.block p).inSStack then c.moveS p else c.addS p).heap = c.heap := by
  split <;> rfl

theorem getHirResident (h : Simulates m c) (hinv : LirsInv c)
    (hle : c.qQueue.length ≤ c.hirCapacity) (hp : p ∈ c.heap)
    (ht : (c.block p).type = .hirResident) (hrounds : c.heap.length < rounds) :
    ∃ m', m.getHirResident p rounds = some m' ∧ Simulates m' (lirsGetHirResident c p) := by
  unfold LirsMem.getHirResident lirsGetHirResident
  rw [h.stats]
  extract_lets stats m1 c1 c2 c3
  have h1 : Simulates m1 c1 := h.withStats _
  have hinv1 : LirsInv c1 := hinv.withStats rfl rfl
  -- the promotion, if the block is on S
  have hpromote : ∃ m2, (if (m1.block p).inSStack then m1.promoteHir p rounds else some m1) =
      some m2 ∧ Simulates m2 c2 ∧ LirsInv c2 ∧ p ∈ c2.heap ∧ c2.heap.length < rounds := by
    rw [h1.block]
    by_cases hf : (c1.block p).inSStack = true
    · have hs : p ∈ c1.sStack := (hinv1.shape.sFlag p).mpr ⟨hp, hf⟩
      have hc2 : c2 = lirsPromoteHir c1 p := if_pos hf
      obtain ⟨hA, -, -, -, -, hAheap, -⟩ := hinv1.promoteBlock hs ht
      obtain ⟨-, -, hBheap, -⟩ := hA.demoteBottom
      obtain ⟨hk, hmem, -⟩ := hinv1.promote hle hs ht
      obtain ⟨m2, hm2, h2⟩ := h1.promoteHir hinv1 hs ht hrounds
      rw [if_pos hf, hc2]
      refine ⟨m2, hm2, h2, hk.inv, hmem, Nat.lt_of_le_of_lt ?_ hrounds⟩
      refine (heap_evict_le _ _).trans ((heap_prune_le _ _).trans (Nat.le_of_eq ?_))
      rw [hBheap, hAheap]
    · have hc2 : c2 = c1 := if_neg hf
      rw [if_neg hf, hc2]
      exact ⟨m1, rfl, h1, hinv1, hp, hrounds⟩
  obtain ⟨m2, hm2, h2, hinv2, hp2, hlen2⟩ := hpromote
  rw [hm2, Option.bind_some]
  have h3 := h2.toTop hinv2.shape hp2
  have hinv3 : LirsInv c3 := hinv2.toTop hp2
  have hheap3 : c3.heap = c2.heap := heap_toTop c2 p
  have hnot := hinv3.not_unqueued (hheap3.symm ▸ hp2)
  have h3' : Simulates (if (m2.block p).inSStack then m2.moveS p else m2.addS p) c3 := h3
  dsimp only
  rw [h3'.block, if_neg hnot, if_neg hnot]
  exact h3'.evict hinv3 (Nat.lt_of_le_of_lt (qLength_le hinv3.shape) (hheap3.symm ▸ hlen2))

theorem getHirNonResident (h : Simulates m c) (hinv : LirsInv c) (hp : p ∈ c.heap)
    (ht : (c.block p).type = .hirNonResident) (hrounds : c.heap.length < rounds) :
    ∃ m', m.getHirNonResident p rounds = some m' ∧ Simulates m' (lirsGetHirNonResident c p) := by
  have hflag : (c.block p).inSStack = true := (hinv.blocks p hp).stacked (by rw [ht]; decide)
  have hs := (hinv.shape.sFlag p).mpr ⟨hp, hflag⟩
  unfold LirsMem.getHirNonResident lirsGetHirNonResident
  rw [h.stats]
  extract_lets stats m1 c1
  have h1 : Simulates m1 c1 := h.withStats _
  have hinv1 : LirsInv c1 := hinv.withStats rfl rfl
  have hflag1 : (c1.block p).inSStack = true := hflag
  have hs1 : p ∈ c1.sStack := hs
  have ht1 : (c1.block p).type = .hirNonResident := ht
  have hin := inBucket hinv1.shape hp
  obtain ⟨i, hi⟩ := hin
  have hcomm : (lirsRemoveHash c1 p).delS p = lirsRemoveHash (c1.delS p) p := rfl
  rw [h1.block, if_pos hflag1, if_pos hflag1]
  have h2 := ((h1.removeHash hi).delS hs1).blockDestroy p
  have hinv2 : LirsInv (lirsBlockDestroy ((lirsRemoveHash c1 p).delS p) p) :=
    hcomm ▸ hinv1.destroy hs1 ht1
  have hlen : (lirsBlockDestroy ((lirsRemoveHash c1 p).delS p) p).heap.length < rounds :=
    Nat.lt_of_le_of_lt List.length_erase_le hrounds
  exact h2.prune hinv2 (Nat.lt_of_le_of_lt (sLength_le hinv2.shape) hlen)

theorem touch (h : Simulates m c) (p : ℕ) : Simulates (m.touched p) (touched c p) := by
  obtain ⟨S, Q, T, hs, rfl⟩ := h
  exact ⟨S, Q, T, hs.congr rfl rfl, rfl⟩

/-- **`lirs_get`** -/
theorem get (h : Simulates m c) (hinv : LirsInv c) (hle : c.qQueue.length ≤ c.hirCapacity)
    (key : ℕ) (hrounds : c.heap.length < rounds) :
    ∃ m', m.get key rounds = some (m', (lirsGet c key).2) ∧ Simulates m' (lirsGet c key).1 := by
  unfold LirsMem.get
  by_cases hk : key = 0
  · unfold lirsGet
    rw [if_pos hk, if_pos hk]
    exact ⟨m, rfl, h⟩
  rw [if_neg hk, h.findBlock hinv.shape key hrounds, Option.bind_some]
  rcases hf : lirsFindBlock c key with _ | p
  · unfold lirsGet
    rw [if_neg hk, hf, h.stats]
    exact ⟨_, rfl, h.withStats _⟩
  obtain ⟨hp, -⟩ := hinv.find_some hf
  have h1 := h.touch p
  have hinv1 := hinv.touch hp
  have htypes : ((touched c p).block p).type = (c.block p).type := congrFun (types_touched c p) p
  rw [lirsGet_found hk hf]
  dsimp only
  unfold LirsMem.getFound
  rw [h1.block, htypes]
  rcases ht : (c.block p).type with _ | _ | _
  · obtain ⟨m2, hm2, h2⟩ := h1.getLir hinv1 hp hrounds
    exact ⟨m2, by dsimp only; rw [hm2, Option.map_some, h2.block], h2⟩
  · obtain ⟨m2, hm2, h2⟩ := h1.getHirResident hinv1 hle hp (htypes.trans ht) hrounds
    exact ⟨m2, by dsimp only; rw [hm2, Option.map_some, h2.block], h2⟩
  · obtain ⟨m2, hm2, h2⟩ := h1.getHirNonResident hinv1 hp (htypes.trans ht) hrounds
    exact ⟨m2, by dsimp only; rw [hm2, Option.map_some], h2⟩

/-! ## `lirs_put` -/

theorem putExisting (h : Simulates m c) (p value size : ℕ) :
    Simulates (m.putExisting p value size) (lirsPutExisting c p value size) := by
  obtain ⟨S, Q, T, hs, rfl⟩ := h
  unfold LirsMem.putExisting lirsPutExisting
  dsimp only
  by_cases hv : (m.block p).value ≠ value
  · have hv' : ((m.view S Q T).block p).value ≠ value := hv
    rw [if_pos hv, if_pos hv']
    exact ⟨S, Q, T, hs.congr rfl rfl, rfl⟩
  · have hv' : ¬ ((m.view S Q T).block p).value ≠ value := hv
    rw [if_neg hv, if_neg hv']
    exact ⟨S, Q, T, hs, rfl⟩

/-- The loop that makes room comes to its end in its second round. -/
theorem makeRoom (h : Simulates m c) (hinv : LirsInv c) (hle : c.qQueue.length ≤ c.hirCapacity)
    (size : ℕ) (hrounds : c.heap.length + 1 < rounds) :
    ∃ m', LirsMem.makeRoom size rounds rounds m = some (m', (lirsMakeRoom c size).full size) ∧
      Simulates m' (lirsMakeRoom c size) := by
  obtain ⟨n, rfl⟩ : ∃ n, rounds = n + 2 := ⟨rounds - 2, by omega⟩
  have hlen : c.heap.length < n + 2 := by omega
  unfold LirsMem.makeRoom lirsMakeRoom
  rw [h.full size]
  by_cases hfull : c.full size = true
  · obtain ⟨m1, hm1, h1⟩ := h.evict hinv (Nat.lt_of_le_of_lt (qLength_le hinv.shape) hlen)
    rw [hinv.evict_self hle] at h1
    rw [if_pos hfull, if_pos hfull, hm1, Option.bind_some, h1.full size, h1.sEmpty,
      hinv.evict_self hle]
    dsimp only
    have hprune : ∃ m2, (if (c.full size && !c.sStack.isEmpty) = true then m1.pruneSStack (n + 2)
        else some m1) = some m2 ∧
        Simulates m2 (if (c.full size && !c.sStack.isEmpty) = true then lirsPruneSStack c else c) := by
      by_cases hne : (c.full size && !c.sStack.isEmpty) = true
      · rw [if_pos hne, if_pos hne]
        exact h1.prune hinv (Nat.lt_of_le_of_lt (sLength_le hinv.shape) hlen)
      · rw [if_neg hne, if_neg hne]
        exact ⟨m1, rfl, h1⟩
    obtain ⟨m2, hm2, h2⟩ := hprune
    rw [hm2, Option.bind_some, h2.full size]
    refine ⟨m2, ?_, h2⟩
    by_cases hstill : (if (c.full size && !c.sStack.isEmpty) = true then lirsPruneSStack c
        else c).full size = true
    · rw [if_pos hstill, hstill]
    · rw [if_neg hstill]
      unfold LirsMem.makeRoom
      rw [h2.full size, if_neg hstill, Bool.eq_false_iff.mpr hstill]
  · rw [if_neg hfull, if_neg hfull, Bool.eq_false_iff.mpr hfull]
    exact ⟨m, rfl, h⟩

/-- A fresh block goes on S, on Q when S is too long for one more LIR block, and into the table. -/
theorem putEntry (h : Simulates m c) (hinv : LirsShape c) (hp : p ∉ c.heap) (key value size : ℕ) :
    Simulates ((m.blockCreate p key value size).putEntry p size) (entered c p key value size) := by
  have hS : p ∉ c.sStack := fun hin => hp (hinv.mem_heap_of_s hin)
  have hQ : p ∉ c.qQueue := fun hin => hp (hinv.mem_heap_of_q hin)
  have hT : ∀ i, p ∉ c.hashTable i := fun i hin => hp ((hinv.bucket i p).mp hin).1
  have h1 := (h.blockCreate hS hQ hT key value size).touch p
  have h2 : Simulates (((m.blockCreate p key value size).touched p).putType p)
      (lirsPutType (touched (lirsBlockCreate c p key value size) p) p) ∧
      p ∉ (lirsPutType (touched (lirsBlockCreate c p key value size) p) p).sStack ∧
      ∀ i, p ∉ (lirsPutType (touched (lirsBlockCreate c p key value size) p) p).hashTable i := by
    obtain ⟨S, Q, T, hs, heq⟩ := h1
    have hSe : c.sStack = S := congrArg LirsCache.sStack heq
    have hQe : c.qQueue = Q := congrArg LirsCache.qQueue heq
    have hTe : c.hashTable = T := congrArg LirsCache.hashTable heq
    rw [heq]
    unfold LirsMem.putType lirsPutType
    by_cases hroom : ((m.blockCreate p key value size).touched p).sStackSize <
        subW ((m.blockCreate p key value size).touched p).capacity
          ((m.blockCreate p key value size).touched p).hirCapacity
    · have hroom' : (((m.blockCreate p key value size).touched p).view S Q T).sStackSize <
        subW (((m.blockCreate p key value size).touched p).view S Q T).capacity
          (((m.blockCreate p key value size).touched p).view S Q T).hirCapacity := hroom
      rw [if_pos hroom, if_pos hroom']
      exact ⟨⟨S, Q, T, hs.congr rfl rfl, rfl⟩, hSe ▸ hS, hTe ▸ hT⟩
    · have hroom' : ¬ (((m.blockCreate p key value size).touched p).view S Q T).sStackSize <
        subW (((m.blockCreate p key value size).touched p).view S Q T).capacity
          (((m.blockCreate p key value size).touched p).view S Q T).hirCapacity := hroom
      rw [if_neg hroom, if_neg hroom']
      exact ⟨⟨S, Q ++ [p], T, (hs.addQ (hQe ▸ hQ)).congr rfl rfl, rfl⟩, hSe ▸ hS, hTe ▸ hT⟩
  obtain ⟨h2, hS2, hT2⟩ := h2
  have h3 := (h2.addS hS2).insertHash hT2
  unfold LirsMem.putEntry
  dsimp only
  rw [h3.stats]
  exact h3.withStats _

/-- **`lirs_put`** -/
theorem put (h : Simulates m c) (hinv : LirsInv c) (hle : c.qQueue.length ≤ c.hirCapacity)
    (key value size : ℕ) {mem : Option ℕ} (hmem : ∀ p, mem = some p → p ∉ c.heap)
    (hrounds : c.heap.length + 1 < rounds) :
    ∃ m', m.put key value size rounds mem = some (m', (lirsPut c key value size mem).2) ∧
      Simulates m' (lirsPut c key value size mem).1 := by
  unfold LirsMem.put lirsPut
  by_cases hk : key = 0
  · rw [if_pos hk, if_pos hk]
    exact ⟨m, rfl, h⟩
  rw [if_neg hk, if_neg hk, h.findBlock hinv.shape key (by omega), Option.bind_some]
  rcases hf : lirsFindBlock c key with _ | p
  · obtain ⟨m1, hm1, h1⟩ := h.makeRoom hinv hle size hrounds
    obtain ⟨hroom, hframe⟩ := hinv.makeRoom hle size
    dsimp only
    rw [hm1, Option.bind_some]
    by_cases hfull : (lirsMakeRoom c size).full size = true
    · rw [if_pos hfull, if_pos hfull]
      exact ⟨m1, rfl, h1⟩
    rw [if_neg hfull, if_neg hfull]
    rcases mem with _ | p
    · exact ⟨m1, rfl, h1⟩
    have hp : p ∉ (lirsMakeRoom c size).heap := fun hin => hmem p rfl (hframe.old p hin).1
    have hkeys : ∀ q ∈ (lirsMakeRoom c size).heap, ((lirsMakeRoom c size).block q).key ≠ key := by
      intro q hq
      obtain ⟨hq', he⟩ := hframe.old q hq
      rw [he]
      exact hinv.find_none hf q hq'
    have h2 := h1.putEntry hroom.shape hp key value size
    have hinv2 := hroom.newBlock hp value size hkeys
    have hheap2 := (entered_fields (lirsMakeRoom c size) p key value size).2.2.1
    have hlen2 : (entered (lirsMakeRoom c size) p key value size).heap.length < rounds := by
      have hsub : (lirsMakeRoom c size).heap.length ≤ c.heap.length :=
        (hroom.shape.heapNodup.subperm fun q hq => (hframe.old q hq).1).length_le
      rw [hheap2, List.length_cons]
      omega
    obtain ⟨m3, hm3, h3⟩ := h2.prune hinv2 (Nat.lt_of_le_of_lt (sLength_le hinv2.shape) hlen2)
    have hinv3 := hinv2.prune.1
    obtain ⟨m4, hm4, h4⟩ := h3.evict hinv3 (Nat.lt_of_le_of_lt (qLength_le hinv3.shape)
      (Nat.lt_of_le_of_lt (heap_prune_le _ _) hlen2))
    refine ⟨m4, ?_, h4⟩
    dsimp only
    rw [hm3, Option.bind_some, hm4, Option.map_some]
  · exact ⟨_, rfl, h.putExisting p value size⟩

/-! ## `lirs_remove` -/

theorem unlist (h : Simulates m c) (hinv : LirsShape c) (hp : p ∈ c.heap) :
    Simulates (if ((if (m.block p).inSStack then m.delS p else m).block p).inQQueue then
        (if (m.block p).inSStack then m.delS p else m).delQ p
        else if (m.block p).inSStack then m.delS p else m) (unlisted c p) := by
  have h1 : Simulates (if (m.block p).inSStack then m.delS p else m)
      (if (c.block p).inSStack then c.delS p else c) :=
    ite (by rw [h.block]) (fun hb => h.delS ((hinv.sFlag p).mpr ⟨hp, h.block ▸ hb⟩)) fun _ => h
  have hflag : ((if (c.block p).inSStack then c.delS p else c).block p).inQQueue =
      (c.block p).inQQueue ∧ (if (c.block p).inSStack then c.delS p else c).qQueue = c.qQueue := by
    split
    · exact ⟨by simp [LirsCache.delS], rfl⟩
    · exact ⟨rfl, rfl⟩
  refine ite (by rw [h1.block]) (fun hb => h1.delQ ?_) fun _ => h1
  rw [h1.block, hflag.1] at hb
  rw [hflag.2]
  exact (hinv.qFlag p).mpr ⟨hp, hb⟩

theorem removeBlock (h : Simulates m c) (hinv : LirsInv c) (hp : p ∈ c.heap)
    (hrounds : c.heap.length < rounds) :
    ∃ m', m.removeBlock p rounds = some m' ∧ Simulates m' (lirsRemoveBlock c p) := by
  obtain ⟨hshape, hheap, -⟩ := hinv.shape.unlisted hp
  have h1 := h.unlist hinv.shape hp
  obtain ⟨i, hi⟩ := inBucket hshape (hheap.symm ▸ hp)
  have h2 := h1.removeHash hi
  have hinv2 := (hinv.takeOut hp).1
  have hlen : (removed c p).heap.length < rounds := by
    refine Nat.lt_of_le_of_lt List.length_erase_le ?_
    show (unlisted c p).heap.length < rounds
    rw [hheap]
    exact hrounds
  rw [lirsRemoveBlock_eq]
  unfold LirsMem.removeBlock
  extract_lets m1 m2 m3 m4
  have h3 : Simulates m3 (lirsRemoveHash (unlisted c p) p) := h2
  have h4 : Simulates (m4.blockDestroy p) (removed c p) := by
    refine blockDestroy ?_ p
    have hm4 : m4 = { m3 with
        stats := lirsStatsRemoved (unlisted c p).stats ((unlisted c p).block p) } := by
      show { m3 with stats := lirsStatsRemoved m3.stats (m3.block p) } = _
      rw [h3.stats, h3.block]
      rfl
    rw [hm4]
    exact h3.withStats _
  exact h4.prune hinv2 (Nat.lt_of_le_of_lt (sLength_le hinv2.shape) hlen)

/-- **`lirs_remove`** -/
theorem remove (h : Simulates m c) (hinv : LirsInv c) (key : ℕ)
    (hrounds : c.heap.length < rounds) :
    ∃ m', m.remove key rounds = some (m', (lirsRemove c key).2) ∧
      Simulates m' (lirsRemove c key).1 := by
  unfold LirsMem.remove lirsRemove
  by_cases hk : key = 0
  · rw [if_pos hk, if_pos hk]
    exact ⟨m, rfl, h⟩
  rw [if_neg hk, if_neg hk, h.findBlock hinv.shape key hrounds, Option.bind_some]
  rcases hf : lirsFindBlock c key with _ | p
  · exact ⟨m, rfl, h⟩
  · obtain ⟨m1, hm1, h1⟩ := h.removeBlock hinv (hinv.find_some hf).1 hrounds
    exact ⟨m1, by dsimp only; rw [hm1, Option.map_some], h1⟩

end

end Simulates

/-! ## runs -/

section
variable {m : LirsMem} {c : LirsCache}

theorem heap_promote_le (c : LirsCache) (p : ℕ) :
    (lirsPromoteHir c p).heap.length ≤ c.heap.length := by
  have h1 : (lirsPromoteBlock c p).heap = c.heap := by
    unfold lirsPromoteBlock
    dsimp only
    split <;> rfl
  have h2 : ∀ c : LirsCache, (lirsDemoteBottom c).heap = c.heap := by
    intro c
    unfold lirsDemoteBottom lirsDemoteLir
    dsimp only
    split
    · rfl
    · split
      · split <;> rfl
      · rfl
  unfold lirsPromoteHir
  refine (Simulates.heap_evict_le _ _).trans ((Simulates.heap_prune_le _ _).trans ?_)
  rw [h2, h1]

theorem heap_getHirResident_le (c : LirsCache) (p : ℕ) :
    (lirsGetHirResident c p).heap.length ≤ c.heap.length := by
  unfold lirsGetHirResident
  extract_lets stats c1 c2 c3
  have h2 : c2.heap.length ≤ c.heap.length := by
    show (if (c1.block p).inSStack then lirsPromoteHir c1 p else c1).heap.length ≤ c1.heap.length
    split
    · exact heap_promote_le c1 p
    · exact Nat.le_refl _
  have h3 : c3.heap = c2.heap := Simulates.heap_toTop c2 p
  refine (Simulates.heap_evict_le _ _).trans ?_
  split
  · exact (Nat.le_of_eq (congrArg List.length h3)).trans h2
  · exact (Nat.le_of_eq (congrArg List.length h3)).trans h2

/-- A call allocates one block at most. -/
theorem heap_step_le (hinv : LirsInv c) (hle : c.qQueue.length ≤ c.hirCapacity) (op : LirsOp) :
    (c.step op).heap.length ≤ c.heap.length + 1 := by
  cases op with
  | get key =>
    refine Nat.le_succ_of_le ?_
    show (lirsGet c key).1.heap.length ≤ _
    by_cases hk : key = 0
    · unfold lirsGet
      rw [if_pos hk]
    rcases hf : lirsFindBlock c key with _ | p
    · unfold lirsGet
      rw [if_neg hk, hf]
    rw [lirsGet_found hk hf]
    rcases (c.block p).type with _ | _ | _
    · refine (Simulates.heap_prune_le _ _).trans (Nat.le_of_eq (congrArg List.length ?_))
      exact Simulates.heap_toTop _ p
    · exact heap_getHirResident_le (touched c p) p
    · show (lirsGetHirNonResident (touched c p) p).heap.length ≤ _
      unfold lirsGetHirNonResident
      dsimp only
      split
      · exact (Simulates.heap_prune_le _ _).trans List.length_erase_le
      · exact Nat.le_refl _
  | put key value size mem =>
    show (lirsPut c key value size mem).1.heap.length ≤ _
    obtain ⟨hroom, hframe⟩ := hinv.makeRoom hle size
    have hsub : (lirsMakeRoom c size).heap.length ≤ c.heap.length :=
      (hroom.shape.heapNodup.subperm fun q hq => (hframe.old q hq).1).length_le
    unfold lirsPut
    by_cases hk : key = 0
    · rw [if_pos hk]
      exact Nat.le_succ _
    rw [if_neg hk]
    rcases hf : lirsFindBlock c key with _ | existing
    · dsimp only
      by_cases hfull : (lirsMakeRoom c size).full size = true
      · rw [if_pos hfull]
        exact Nat.le_succ_of_le hsub
      rw [if_neg hfull]
      rcases mem with _ | p
      · exact Nat.le_succ_of_le hsub
      have hheap := (entered_fields (lirsMakeRoom c size) p key value size).2.2.1
      refine (Simulates.heap_evict_le _ _).trans ((Simulates.heap_prune_le _ _).trans ?_)
      show (entered (lirsMakeRoom c size) p key value size).heap.length ≤ _
      rw [hheap, List.length_cons]
      exact Nat.succ_le_succ hsub
    · refine Nat.le_succ_of_le (Nat.le_of_eq (congrArg List.length ?_))
      unfold lirsPutExisting
      dsimp only
      split <;> rfl
  | remove key =>
    refine Nat.le_succ_of_le ?_
    show (lirsRemove c key).1.heap.length ≤ _
    unfold lirsRemove
    split
    · exact Nat.le_refl _
    · rcases hf : lirsFindBlock c key with _ | p
      · exact Nat.le_refl _
      · show (lirsRemoveBlock c p).heap.length ≤ _
        rw [lirsRemoveBlock_eq]
        refine (Simulates.heap_prune_le _ _).trans (List.length_erase_le.trans ?_)
        show (unlisted c p).heap.length ≤ _
        rw [(hinv.shape.unlisted (hinv.find_some hf).1).2.1]

/-- **Step lemma.**  A call on the pointers is the call on the lists. -/
theorem simulates_step (h : Simulates m c) (hinv : LirsInv c)
    (hle : c.qQueue.length ≤ c.hirCapacity) (op : LirsOp) (hfresh : op.FreshMemory c) (rounds : ℕ)
    (hrounds : c.heap.length + 1 < rounds) :
    ∃ m', m.step rounds op = some (m', c.reply op) ∧ Simulates m' (c.step op) := by
  have hlt : c.heap.length < rounds := by omega
  cases op with
  | get key =>
    obtain ⟨m', hm', h'⟩ := h.get hinv hle key hlt
    refine ⟨m', ?_, h'⟩
    show (m.get key rounds).map _ = _
    rw [hm']
    rfl
  | put key value size mem =>
    obtain ⟨m', hm', h'⟩ := h.put hinv hle key value size hfresh hrounds
    refine ⟨m', ?_, h'⟩
    show (m.put key value size rounds mem).map _ = _
    rw [hm']
    rfl
  | remove key =>
    obtain ⟨m', hm', h'⟩ := h.remove hinv key hlt
    refine ⟨m', ?_, h'⟩
    show (m.remove key rounds).map _ = _
    rw [hm']
    rfl

theorem simulates_run (h : Simulates m c) (hinv : LirsInv c)
    (hle : c.qQueue.length ≤ c.hirCapacity) {ops : List LirsOp}
    (hfresh : Runs.Each LirsCache.step LirsOp.FreshMemory c ops) (rounds : ℕ)
    (hrounds : c.heap.length + ops.length < rounds) :
    ∃ m', LirsMem.run rounds m ops = some (m', c.replies ops) ∧
      Simulates m' (Runs.after LirsCache.step c ops) := by
  induction ops generalizing m c with
  | nil => exact ⟨m, rfl, h⟩
  | cons op ops ih =>
    rw [List.length_cons] at hrounds
    obtain ⟨hfresh, hrest⟩ := hfresh
    obtain ⟨m1, hm1, h1⟩ := simulates_step h hinv hle op hfresh rounds (by omega)
    obtain ⟨hinv1, hle1⟩ := lirs_inv_step c op ⟨hinv, hle⟩ hfresh
    have hgrow := heap_step_le hinv hle op
    obtain ⟨m2, hm2, h2⟩ := ih h1 hinv1 hle1 hrest (by omega)
    refine ⟨m2, ?_, h2⟩
    unfold LirsMem.run
    rw [hm1, Option.bind_some, hm2]
    rfl

/-- Two empty lists and a table of empty chains, in a memory that holds anything. -/
theorem simulates_create {capacity maxSize : ℕ} {cacheOk tableOk : Bool} (links : Links LirsNode)
    (hc : lirsCreate capacity maxSize cacheOk tableOk = some c) :
    ∃ m, LirsMem.create capacity maxSize cacheOk tableOk links = some m ∧ Simulates m c := by
  unfold LirsMem.create
  rw [hc]
  refine ⟨_, rfl, [], [], fun _ => [], ⟨?_, hlistInit_chains⟩, ?_⟩
  · have hinj : Function.Injective LirsNode.head := fun _ _ h => LirsNode.head.inj h
    have hinit : CircLists (initListHeads { links with fault := false } LirsNode.head
        [.sStack, .qQueue]) LirsNode.head fun _ => [] :=
      initListHeads_circLists hinj rfl fun k => by cases k <;> simp
    have hnone : listNodes [] [] = fun _ => [] := by
      funext k
      cases k <;> rfl
    rw [hnone]
    exact hinit
  · unfold lirsCreate at hc
    rcases cacheOk with _ | _
    · cases hc
    cases hsize : hashSizeLoop 65 1 (capacity * 2 % wordSize) with
    | none =>
      rw [hsize] at hc
      cases hc
    | some hashSize =>
      rw [hsize] at hc
      rcases tableOk with _ | _
      · cases hc
      cases hc
      rfl

/-- **The pointers of the LIRS cache.**  Over every run from `lirs_create` each function on the
pointers comes to its end, in no more rounds of a loop than there are calls and one, returns what the
function on the lists returns, and leaves pointers that stand for its lists; no store goes through
NULL, and the head of a list is never taken for a block. -/
theorem lirs_pointers_run {capacity maxSize : ℕ} {cacheOk tableOk : Bool} (links : Links LirsNode)
    (hc : lirsCreate capacity maxSize cacheOk tableOk = some c) (ops : List LirsOp)
    (hfresh : Runs.Each LirsCache.step LirsOp.FreshMemory c ops) (rounds : ℕ)
    (hrounds : ops.length < rounds) :
    ∃ m m', LirsMem.create capacity maxSize cacheOk tableOk links = some m ∧
      LirsMem.run rounds m ops = some (m', c.replies ops) ∧
      Simulates m' (Runs.after LirsCache.step c ops) ∧ m'.links.fault = false ∧
      m'.chains.fault = false := by
  obtain ⟨hinv, hle, -⟩ := lirsCreate_inv hc
  obtain ⟨m, hm, h⟩ := simulates_create links hc
  have hheap : c.heap.length = 0 := by
    unfold LirsMem.create at hm
    rw [hc, Option.map_some] at hm
    have := h.heap
    rw [← Option.some.inj hm] at this
    rw [← this]
    rfl
  obtain ⟨m', hm', h'⟩ := simulates_run h hinv hle hfresh rounds (by omega)
  obtain ⟨S, Q, T, hs, heq⟩ := h'
  exact ⟨m, m', hm, hm', ⟨S, Q, T, hs, heq⟩, hs.lists.noFault, hs.chains.noFault⟩

/-- A run in which a block is promoted, one is evicted and one is removed. -/
theorem lirs_pointers_run_small : ∃ m m',
    LirsMem.create 3 1000 true true ⟨fun _ => none, fun _ => none, true⟩ = some m ∧
      LirsMem.run 6 m [.put 16 1 10 (some 100), .put 32 2 10 (some 200), .get 32, .get 16,
        .remove 32] =
        some (m', ((lirsCreate 3 1000 true true).get rfl).replies
          [.put 16 1 10 (some 100), .put 32 2 10 (some 200), .get 32, .get 16, .remove 32]) ∧
      Simulates m' (Runs.after LirsCache.step ((lirsCreate 3 1000 true true).get rfl)
        [.put 16 1 10 (some 100), .put 32 2 10 (some 200), .get 32, .get 16, .remove 32]) ∧
      m'.links.fault = false ∧ m'.chains.fault = false := by
  refine lirs_pointers_run _ (Option.some_get _).symm _ ?_ 6 (by decide)
  refine ⟨?_, ?_, trivial, trivial, trivial, trivial⟩
  · intro p hp
    cases hp
    decide
  · intro p hp
    cases hp
    decide

end

end Nomalloc
