import Nomalloc.Cache.LirsSimulation
import Nomalloc.Cache.LirsUpkeep
import Mathlib.Data.List.DropRight

/-!
# What the LIRS cache computes

An abstract machine on keys: the stack S and the queue Q are lists of keys, and the machine knows a
value, a size and a type for some keys.  It has no blocks, flags, counters of list lengths, hash
table or loops.

* `LirsMachine.prune`   the keys at the bottom of S up to the first LIR one leave S, and the ghosts
                        among them are forgotten;
* `LirsMachine.evict`   the oldest keys of Q beyond its capacity become ghosts, those that are not on
                        S are forgotten;
* `LirsMachine.get`, `LirsMachine.put`, `LirsMachine.remove`   nothing but `put` ever evicts;
* `LirsCache.machine`   the machine that a cache stands for;
* `lirs_refines`        over every run the cache on lists replies what the machine does.
-/

namespace Nomalloc

/-- What is known of a key. -/
structure LirsEntry where
  value : ℕ
  size : ℕ
  type : LirsBlockType
deriving DecidableEq, Repr

/-- S from its top, Q from its oldest key. -/
@[ext] structure LirsMachine where
  lirCapacity : ℕ
  hirCapacity : ℕ
  maxSize : ℕ
  s : List ℕ
  q : List ℕ
  entry : ℕ → Option LirsEntry
  total : ℕ

namespace LirsMachine

variable (a : LirsMachine) (k value size : ℕ)

/-- The empty machine. -/
def start (capacity maxSize : ℕ) : LirsMachine :=
  ⟨subW capacity (max (hirShare capacity) LIRS_MIN_HIR_BLOCKS),
    max (hirShare capacity) LIRS_MIN_HIR_BLOCKS, maxSize, [], [], fun _ => none, 0⟩

def has (type : LirsBlockType) : Bool := (a.entry k).any fun e => e.type = type

def setType (type : LirsBlockType) : LirsMachine :=
  { a with entry := Function.update a.entry k ((a.entry k).map fun e => { e with type := type }) }

def forget : LirsMachine := { a with entry := Function.update a.entry k none }

def prune : LirsMachine :=
  { a with
    s := a.s.rdropWhile fun k => !a.has k .lir
    entry := fun k =>
      if k ∈ (a.s.rtakeWhile fun k => !a.has k .lir) ∧ a.has k .hirNonResident then none
      else a.entry k }

/-- The keys of Q that are too many. -/
def surplus : List ℕ := a.q.take (a.q.length - a.hirCapacity)

def evict : LirsMachine :=
  { a with
    q := a.q.drop (a.q.length - a.hirCapacity)
    entry := fun k =>
      if k ∈ a.surplus then
        if k ∈ a.s then (a.entry k).map fun e => { e with type := .hirNonResident } else none
      else a.entry k
    total := a.surplus.foldl (fun total k => subW total ((a.entry k).elim 0 LirsEntry.size)) a.total }

/-- A LIR key leaves S for Q. -/
def demote : LirsMachine := { a.setType k .hirResident with s := a.s.erase k, q := a.q ++ [k] }

def demoteBottom : LirsMachine :=
  match a.s.getLast? with
  | none => a
  | some bottom => if a.has bottom .lir then a.demote bottom else a

/-- A resident key becomes LIR, and a LIR key at the bottom of S makes room for it. -/
def promote : LirsMachine := { a.setType k .lir with q := a.q.erase k }.demoteBottom.prune

def toTop : LirsMachine := { a with s := k :: a.s.erase k }

def get : LirsMachine × ℕ :=
  if k = 0 then (a, 0)
  else
    match a.entry k with
    | none => (a, 0)
    | some e =>
      match e.type with
      | .lir => ((a.toTop k).prune, e.value)
      | .hirResident => ((if k ∈ a.s then a.promote k else a).toTop k, e.value)
      | .hirNonResident => (({ a with s := a.s.erase k }.forget k).prune, 0)

def full : Bool := a.maxSize < addW a.total size

/-- A new key: LIR while S is short. -/
def insert : LirsMachine :=
  let lir := decide (a.s.length < a.lirCapacity)
  { a with
    s := k :: a.s
    q := if lir then a.q else a.q ++ [k]
    entry := Function.update a.entry k (some ⟨value, size, if lir then .lir else .hirResident⟩)
    total := addW a.total size }

/-- `mem` says whether there is memory for a block. -/
def put (mem : Bool) : LirsMachine × Int :=
  if k = 0 then (a, -1)
  else
    match a.entry k with
    | some e =>
      (if e.value ≠ value then
        { a with
          entry := Function.update a.entry k (some { e with value := value, size := size })
          total := addW (subW a.total e.size) size }
      else a, 0)
    | none =>
      if a.full size then (a.prune, -2)
      else if !mem then (a, -3)
      else ((a.insert k value size).prune.evict, 0)

def remove : LirsMachine × Int :=
  if k = 0 then (a, -1)
  else
    match a.entry k with
    | none => (a, -2)
    | some e =>
      (({ a with s := a.s.erase k, q := a.q.erase k, total := subW a.total e.size }.forget k).prune, 0)

def step (a : LirsMachine) : LirsOp → LirsMachine
  | .get key => (a.get key).1
  | .put key value size mem => (a.put key value size mem.isSome).1
  | .remove key => (a.remove key).1

def reply (a : LirsMachine) : LirsOp → LirsReply
  | .get key => .value (a.get key).2
  | .put key value size mem => .code (a.put key value size mem.isSome).2
  | .remove key => .code (a.remove key).2

def replies : LirsMachine → List LirsOp → List LirsReply
  | _, [] => []
  | a, op :: ops => a.reply op :: (a.step op).replies ops

/-! ## pruning and evicting key by key -/

section
variable {a : LirsMachine} {k : ℕ}

/-- One key off the bottom of S. -/
def dropBottom (a : LirsMachine) (k : ℕ) : LirsMachine :=
  { a with
    s := a.s.erase k
    entry := if a.has k .hirNonResident then Function.update a.entry k none else a.entry }

/-- One key off the front of Q. -/
def evictOne (a : LirsMachine) (k : ℕ) : LirsMachine :=
  { a with
    q := a.q.erase k
    entry := Function.update a.entry k
      (if k ∈ a.s then (a.entry k).map fun e => { e with type := .hirNonResident } else none)
    total := subW a.total ((a.entry k).elim 0 LirsEntry.size) }

theorem prune_of_lir (h : ∀ k, a.s.getLast? = some k → a.has k .lir = true) : a.prune = a := by
  rcases List.eq_nil_or_concat' a.s with hs | ⟨as, b, hs⟩
  · ext1 <;> simp [prune, hs]
  · have hb : a.has b .lir = true := h b (by rw [hs, List.getLast?_concat])
    have hdrop : a.s.rdropWhile (fun k => !a.has k .lir) = a.s := by
      rw [hs, List.rdropWhile_concat_neg _ _ _ (by rw [hb]; decide)]
    have htake : a.s.rtakeWhile (fun k => !a.has k .lir) = [] := by
      rw [hs, List.rtakeWhile_concat_neg _ _ _ (by rw [hb]; decide)]
    ext1 <;> simp [prune, hdrop, htake]

theorem has_dropBottom (hlir : a.has k .lir = false) (j : ℕ) :
    (a.dropBottom k).has j .lir = a.has j .lir := by
  unfold has dropBottom
  dsimp only
  split
  · by_cases hj : j = k
    · rw [hj, Function.update_self]
      exact hlir.symm
    · rw [Function.update_of_ne hj]
  · rfl

theorem entry_dropBottom {j : ℕ} (hj : j ≠ k) : (a.dropBottom k).entry j = a.entry j := by
  unfold dropBottom
  dsimp only
  split
  · exact Function.update_of_ne hj ..
  · rfl

theorem prune_bottom (hnd : a.s.Nodup) (hk : a.s.getLast? = some k) (hlir : a.has k .lir = false) :
    a.prune = (a.dropBottom k).prune := by
  rcases List.eq_nil_or_concat' a.s with hs | ⟨as, b, hs⟩
  · rw [hs] at hk
    cases hk
  · have hb : b = k := by
      rw [hs, List.getLast?_concat] at hk
      exact Option.some.inj hk
    subst hb
    have hbas : b ∉ as := fun hin =>
      (List.nodup_append.mp (hs ▸ hnd)).2.2 b hin b (List.mem_singleton_self b) rfl
    have hs1 : (a.dropBottom b).s = as := by
      show a.s.erase b = as
      rw [hs, List.erase_append_right _ hbas, List.erase_cons_head, List.append_nil]
    have hfun : (fun j => !(a.dropBottom b).has j .lir) = fun j => !a.has j .lir := by
      funext j
      rw [has_dropBottom hlir]
    have hdrop : a.s.rdropWhile (fun j => !a.has j .lir) = as.rdropWhile fun j => !a.has j .lir := by
      rw [hs, List.rdropWhile_concat_pos _ _ _ (by rw [hlir]; rfl)]
    have htake : a.s.rtakeWhile (fun j => !a.has j .lir) =
        (as.rtakeWhile fun j => !a.has j .lir) ++ [b] := by
      rw [hs, List.rtakeWhile_concat_pos _ _ _ (by rw [hlir]; rfl)]
    have hbtake : b ∉ as.rtakeWhile fun j => !a.has j .lir := fun hin =>
      hbas ((List.rtakeWhile_suffix _ _).subset hin)
    unfold prune
    rw [hfun, hdrop, htake, hs1]
    refine LirsMachine.ext rfl rfl rfl rfl rfl ?_ rfl
    funext j
    dsimp only
    by_cases hj : j = b
    · subst hj
      have hright : (if j ∈ (as.rtakeWhile fun j => !a.has j .lir) ∧
          (a.dropBottom j).has j .hirNonResident then none else (a.dropBottom j).entry j) =
          (a.dropBottom j).entry j := if_neg fun h => hbtake h.1
      have hself : (a.dropBottom j).entry j =
          if a.has j .hirNonResident then none else a.entry j := by
        unfold dropBottom
        dsimp only
        split
        · rw [Function.update_self]
        · rfl
      refine Eq.trans ?_ (hright.trans hself).symm
      exact if_congr (and_iff_right (List.mem_append_right _ (List.mem_singleton_self j))) rfl rfl
    · rw [entry_dropBottom hj]
      refine if_congr (and_congr ?_ ?_) rfl rfl
      · rw [List.mem_append, List.mem_singleton]
        exact or_iff_left hj
      · unfold has
        rw [entry_dropBottom hj]

theorem evict_of_le (h : a.q.length ≤ a.hirCapacity) : a.evict = a := by
  have hzero : a.q.length - a.hirCapacity = 0 := Nat.sub_eq_zero_of_le h
  ext1 <;> simp [evict, surplus, hzero]

theorem entry_evictOne {j : ℕ} (hj : j ≠ k) : (a.evictOne k).entry j = a.entry j :=
  Function.update_of_ne hj ..

theorem evict_first (rest : List ℕ) (hnd : a.q.Nodup) (hq : a.q = k :: rest)
    (hlt : a.hirCapacity < a.q.length) : a.evict = (a.evictOne k).evict := by
  have hk : k ∉ rest := (List.nodup_cons.mp (hq ▸ hnd)).1
  have hq1 : (a.evictOne k).q = rest := by
    show a.q.erase k = rest
    rw [hq, List.erase_cons_head]
  have hlen : a.q.length - a.hirCapacity = rest.length - a.hirCapacity + 1 := by
    rw [hq, List.length_cons] at hlt ⊢
    omega
  have hsur1 : (a.evictOne k).surplus = rest.take (rest.length - a.hirCapacity) := by
    unfold surplus
    rw [hq1]
    rfl
  have hsur : a.surplus = k :: rest.take (rest.length - a.hirCapacity) := by
    unfold surplus
    rw [hlen, hq, List.take_succ_cons]
  have hktake : k ∉ rest.take (rest.length - a.hirCapacity) := fun hin => hk (List.mem_of_mem_take hin)
  unfold evict
  rw [hsur, hsur1, hq1, hlen]
  refine LirsMachine.ext rfl rfl rfl rfl ?_ ?_ ?_
  · show a.q.drop _ = rest.drop _
    rw [hq, List.drop_succ_cons]
    rfl
  · funext j
    dsimp only
    by_cases hj : j = k
    · subst hj
      rw [if_pos List.mem_cons_self, if_neg hktake]
      show _ = Function.update a.entry j _ j
      rw [Function.update_self]
    · rw [entry_evictOne hj]
      refine if_congr ?_ rfl rfl
      rw [List.mem_cons]
      exact or_iff_right hj
  · dsimp only
    rw [List.foldl_cons]
    refine List.foldl_ext _ _ _ fun t j hj => ?_
    have hne : j ≠ k := by
      rintro rfl
      exact hktake hj
    rw [entry_evictOne hne]

end

end LirsMachine

/-! ## the machine that a cache stands for -/

def LirsBlock.known (b : LirsBlock) : LirsEntry := ⟨b.value, b.size, b.type⟩

namespace LirsCache

/-- What the cache knows of a key. -/
def entry (c : LirsCache) (k : ℕ) : Option LirsEntry :=
  (lirsFindBlock c k).map fun p => (c.block p).known

/-- The keys of blocks. -/
def keys (c : LirsCache) (l : List ℕ) : List ℕ := l.map fun p => (c.block p).key

def machine (c : LirsCache) : LirsMachine :=
  { lirCapacity := subW c.capacity c.hirCapacity
    hirCapacity := c.hirCapacity
    maxSize := c.maxSize
    s := c.keys c.sStack
    q := c.keys c.qQueue
    entry := c.entry
    total := c.stats.totalSize }

end LirsCache

section
variable {c c' : LirsCache} {p k : ℕ} {e : LirsEntry} {l : List ℕ}

/-- The entries are those of the blocks of the cache. -/
theorem LirsInv.entry_iff (h : LirsInv c) :
    c.entry k = some e ↔ ∃ p ∈ c.heap, (c.block p).key = k ∧ (c.block p).known = e := by
  unfold LirsCache.entry
  rw [Option.map_eq_some_iff]
  exact exists_congr fun p => by rw [h.find_iff, and_assoc]

theorem LirsInv.entry_of_mem (h : LirsInv c) (hp : p ∈ c.heap) :
    c.entry (c.block p).key = some (c.block p).known := h.entry_iff.mpr ⟨p, hp, rfl, rfl⟩

theorem LirsInv.entry_none (h : LirsInv c) (hk : ∀ p ∈ c.heap, (c.block p).key ≠ k) :
    c.entry k = none := by
  cases he : c.entry k with
  | none => rfl
  | some e =>
    obtain ⟨p, hp, hkey, -⟩ := h.entry_iff.mp he
    exact absurd hkey (hk p hp)

theorem LirsInv.has_eq (h : LirsInv c) (hp : p ∈ c.heap) (t : LirsBlockType) :
    c.machine.has (c.block p).key t = decide ((c.block p).type = t) := by
  unfold LirsMachine.has LirsCache.machine
  dsimp only
  rw [h.entry_of_mem hp]
  rfl

/-- Two caches know the same of a key when their blocks for it agree. -/
theorem LirsInv.entry_congr (h : LirsInv c) (h' : LirsInv c') (k : ℕ)
    (hblocks : ∀ p, (p ∈ c'.heap ∧ (c'.block p).key = k) ↔ (p ∈ c.heap ∧ (c.block p).key = k))
    (hentry : ∀ p ∈ c.heap, (c.block p).key = k → (c'.block p).known = (c.block p).known) :
    c'.entry k = c.entry k := by
  refine Option.ext fun e => ?_
  rw [h.entry_iff, h'.entry_iff]
  refine exists_congr fun p => ?_
  rw [← and_assoc, ← and_assoc, hblocks]
  exact and_congr_right fun hp => by rw [hentry p hp.1 hp.2]

/-- A store to one block, its key apart. -/
theorem LirsInv.entry_stored (h : LirsInv c) (h' : LirsInv c') (hp : p ∈ c.heap)
    (hheap : c'.heap = c.heap) (hkey : (c'.block p).key = (c.block p).key)
    (hother : ∀ q, q ≠ p → c'.block q = c.block q) :
    c'.entry = Function.update c.entry (c.block p).key (some (c'.block p).known) := by
  funext k
  by_cases hk : k = (c.block p).key
  · rw [hk, Function.update_self, ← hkey]
    exact h'.entry_of_mem (hheap ▸ hp)
  · rw [Function.update_of_ne hk]
    have hne : ∀ q, (c.block q).key = k → q ≠ p := by
      rintro q hq rfl
      exact hk hq.symm
    refine h.entry_congr h' k (fun q => ?_) fun q _ hq => by rw [hother q (hne q hq)]
    rw [hheap]
    refine and_congr_right fun _ => ?_
    by_cases hqp : q = p
    · rw [hqp, hkey]
    · rw [hother q hqp]

/-- A block that is freed. -/
theorem LirsInv.entry_freed (h : LirsInv c) (h' : LirsInv c') (hp : p ∈ c.heap)
    (hheap : c'.heap = c.heap.erase p) (hother : ∀ q, q ≠ p → c'.block q = c.block q) :
    c'.entry = Function.update c.entry (c.block p).key none := by
  have hmem : ∀ q, q ∈ c'.heap ↔ q ≠ p ∧ q ∈ c.heap := fun q => by
    rw [hheap, h.shape.heapNodup.mem_erase_iff]
  funext k
  by_cases hk : k = (c.block p).key
  · rw [hk, Function.update_self]
    refine h'.entry_none fun q hq he => ?_
    obtain ⟨hqp, hq⟩ := (hmem q).mp hq
    rw [hother q hqp] at he
    exact hqp (h.shape.keyInj q hq p hp he)
  · rw [Function.update_of_ne hk]
    have hne : ∀ q, (c.block q).key = k → q ≠ p := by
      rintro q hq rfl
      exact hk hq.symm
    refine h.entry_congr h' k (fun q => ?_) fun q _ hq => by rw [hother q (hne q hq)]
    rw [hmem]
    constructor
    · rintro ⟨⟨hqp, hq⟩, hkey⟩
      exact ⟨hq, hother q hqp ▸ hkey⟩
    · rintro ⟨hq, hkey⟩
      have hqp := hne q hkey
      exact ⟨⟨hqp, hq⟩, (hother q hqp).symm ▸ hkey⟩

/-! ### lists of keys -/

theorem keys_congr (hkey : ∀ q ∈ l, (c'.block q).key = (c.block q).key) : c'.keys l = c.keys l :=
  List.map_congr_left hkey

theorem LirsInv.keys_nodup (h : LirsInv c) (hl : l.Nodup) (hsub : ∀ q ∈ l, q ∈ c.heap) :
    (c.keys l).Nodup :=
  hl.map_on fun q hq r hr he => h.shape.keyInj q (hsub q hq) r (hsub r hr) he

theorem LirsInv.mem_keys (h : LirsInv c) (hsub : ∀ q ∈ l, q ∈ c.heap) (hp : p ∈ c.heap) :
    (c.block p).key ∈ c.keys l ↔ p ∈ l := by
  constructor
  · intro hin
    obtain ⟨q, hq, he⟩ := List.mem_map.mp hin
    rwa [← h.shape.keyInj q (hsub q hq) p hp he]
  · exact fun hin => List.mem_map_of_mem hin

theorem LirsInv.keys_erase (h : LirsInv c) (hsub : ∀ q ∈ l, q ∈ c.heap) (hp : p ∈ c.heap) :
    (c.keys l).erase (c.block p).key = c.keys (l.erase p) := by
  induction l with
  | nil => rfl
  | cons q l ih =>
    have hsub' : ∀ r ∈ l, r ∈ c.heap := fun r hr => hsub r (List.mem_cons_of_mem _ hr)
    show ((c.block q).key :: c.keys l).erase _ = _
    by_cases hqp : q = p
    · rw [hqp, List.erase_cons_head, List.erase_cons_head]
    · have hne : (c.block q).key ≠ (c.block p).key := fun he =>
        hqp (h.shape.keyInj q (hsub q List.mem_cons_self) p hp he)
      rw [List.erase_cons_tail (by simpa using hne), ih hsub', List.erase_cons_tail (by simpa using hqp)]
      rfl

theorem keys_getLast? (c : LirsCache) (l : List ℕ) :
    (c.keys l).getLast? = l.getLast?.map fun p => (c.block p).key := List.getLast?_map

theorem LirsInv.keysS_nodup (h : LirsInv c) : c.machine.s.Nodup :=
  h.keys_nodup h.shape.sNodup fun _ hq => h.shape.mem_heap_of_s hq

theorem LirsInv.keysQ_nodup (h : LirsInv c) : c.machine.q.Nodup :=
  h.keys_nodup h.shape.qNodup fun _ hq => h.shape.mem_heap_of_q hq

theorem LirsInv.mem_s (h : LirsInv c) (hp : p ∈ c.heap) :
    (c.block p).key ∈ c.machine.s ↔ p ∈ c.sStack := h.mem_keys (fun _ hq => h.shape.mem_heap_of_s hq) hp

/-! ## pruning -/

theorem lirsPruneBottom_fields (c : LirsCache) (p : ℕ) :
    (lirsPruneBottom c p).capacity = c.capacity ∧ (lirsPruneBottom c p).hirCapacity = c.hirCapacity ∧
      (lirsPruneBottom c p).maxSize = c.maxSize ∧ (lirsPruneBottom c p).qQueue = c.qQueue ∧
      (lirsPruneBottom c p).stats = c.stats ∧ (lirsPruneBottom c p).block = (c.delS p).block ∧
      (lirsPruneBottom c p).heap =
        if (c.block p).type = .hirNonResident then c.heap.erase p else c.heap := by
  have ht : ((c.delS p).block p).type = (c.block p).type := congrFun (types_delS c p) p
  unfold lirsPruneBottom
  dsimp only
  rw [ht]
  by_cases h : (c.block p).type = .hirNonResident
  · rw [if_pos h, if_pos h]
    exact ⟨rfl, rfl, rfl, rfl, rfl, rfl, rfl⟩
  · rw [if_neg h, if_neg h]
    exact ⟨rfl, rfl, rfl, rfl, rfl, rfl, rfl⟩

theorem LirsInv.machine_pruneBottom (h : LirsInv c) (hl : c.sStack.getLast? = some p)
    (hne : (c.block p).type ≠ .lir) :
    (lirsPruneBottom c p).machine = c.machine.dropBottom (c.block p).key := by
  obtain ⟨hinv, -, hs⟩ := h.pruneBottom hl hne
  obtain ⟨hcap, hhir, hmax, hq, hstats, hblock, hheap⟩ := lirsPruneBottom_fields c p
  have hp := h.shape.mem_heap_of_s (List.mem_of_getLast? hl)
  have hother : ∀ q, q ≠ p → (lirsPruneBottom c p).block q = c.block q := fun q hqp => by
    rw [hblock]
    exact Function.update_of_ne hqp ..
  have hself : ((lirsPruneBottom c p).block p).key = (c.block p).key ∧
      ((lirsPruneBottom c p).block p).known = (c.block p).known := by
    rw [hblock]
    simp [LirsCache.delS, LirsBlock.known]
  have hkeys : ∀ q, ((lirsPruneBottom c p).block q).key = (c.block q).key := fun q => by
    by_cases hqp : q = p
    · rw [hqp, hself.1]
    · rw [hother q hqp]
  refine LirsMachine.ext ?_ hhir hmax ?_ ?_ ?_ (congrArg LirsStats.totalSize hstats)
  · show subW (lirsPruneBottom c p).capacity (lirsPruneBottom c p).hirCapacity = _
    rw [hcap, hhir]
    rfl
  · show (lirsPruneBottom c p).keys _ = (c.keys c.sStack).erase _
    rw [hs, keys_congr fun q _ => hkeys q, h.keys_erase (fun _ => h.shape.mem_heap_of_s) hp]
  · show (lirsPruneBottom c p).keys _ = c.keys c.qQueue
    rw [hq, keys_congr fun q _ => hkeys q]
  · show (lirsPruneBottom c p).entry = if c.machine.has (c.block p).key .hirNonResident then _ else _
    rw [h.has_eq hp]
    by_cases ht : (c.block p).type = .hirNonResident
    · rw [if_pos (decide_eq_true ht)]
      rw [if_pos ht] at hheap
      exact h.entry_freed hinv hp hheap hother
    · rw [if_neg (by simpa using ht)]
      rw [if_neg ht] at hheap
      rw [h.entry_stored hinv hp hheap hself.1 hother, hself.2, ← h.entry_of_mem hp,
        Function.update_eq_self]
      rfl

theorem LirsInv.machine_pruneLoop (h : LirsInv c) {n : ℕ} (hn : c.sStack.length ≤ n) :
    (lirsPruneLoop n c).machine = c.machine.prune := by
  induction n generalizing c with
  | zero =>
    have hnil : c.sStack = [] := List.length_eq_zero_iff.mp (Nat.le_zero.mp hn)
    refine (LirsMachine.prune_of_lir fun k hk => ?_).symm
    have hk' : (c.keys c.sStack).getLast? = some k := hk
    rw [hnil] at hk'
    cases hk'
  | succ n ih =>
    unfold lirsPruneLoop
    cases hl : c.sStack.getLast? with
    | none =>
      refine (LirsMachine.prune_of_lir fun k hk => ?_).symm
      have hk' : (c.keys c.sStack).getLast? = some k := hk
      rw [keys_getLast?, hl] at hk'
      cases hk'
    | some p =>
      have hmem := List.mem_of_getLast? hl
      have hp := h.shape.mem_heap_of_s hmem
      have hflag := ((h.shape.sFlag p).mp hmem).2
      have hlast : c.machine.s.getLast? = some (c.block p).key := by
        show (c.keys c.sStack).getLast? = _
        rw [keys_getLast?, hl]
        rfl
      have hlir := h.has_eq hp .lir
      by_cases ht : (c.block p).type = .lir
      · simp only [ht, hflag, and_self, if_true]
        refine (LirsMachine.prune_of_lir fun k hk => ?_).symm
        rw [hlast] at hk
        rw [← Option.some.inj hk, hlir]
        exact decide_eq_true ht
      · simp only [ht, false_and, if_false]
        obtain ⟨hinv, -, hs⟩ := h.pruneBottom hl ht
        have hlen : (lirsPruneBottom c p).sStack.length ≤ n := by
          rw [hs, List.length_erase_of_mem hmem]
          omega
        rw [ih hinv hlen, h.machine_pruneBottom hl ht]
        refine (LirsMachine.prune_bottom h.keysS_nodup hlast ?_).symm
        rw [hlir]
        exact decide_eq_false ht

/-- **`lirs_prune_s_stack`** -/
theorem LirsInv.machine_prune (h : LirsInv c) : (lirsPruneSStack c).machine = c.machine.prune :=
  h.machine_pruneLoop (Nat.le_refl _)

/-! ## evicting -/

theorem lirsEvictHead_fields (c : LirsCache) (p : ℕ) :
    (lirsEvictHead c p).capacity = c.capacity ∧ (lirsEvictHead c p).hirCapacity = c.hirCapacity ∧
      (lirsEvictHead c p).maxSize = c.maxSize ∧ (lirsEvictHead c p).sStack = c.sStack ∧
      (lirsEvictHead c p).stats.totalSize = subW c.stats.totalSize (c.block p).size ∧
      (lirsEvictHead c p).block = Function.update c.block p
        { c.block p with inQQueue := false, type := .hirNonResident } ∧
      (lirsEvictHead c p).heap =
        if (c.block p).inSStack then c.heap else c.heap.erase p := by
  have hb : ((c.delQ p).setType p .hirNonResident).block = Function.update c.block p
      { c.block p with inQQueue := false, type := .hirNonResident } := by
    funext q
    by_cases hq : q = p
    · subst hq
      simp [LirsCache.delQ, LirsCache.setType, LirsCache.setBlock]
    · simp [LirsCache.delQ, LirsCache.setType, LirsCache.setBlock, hq]
  have hflag : (((c.delQ p).setType p .hirNonResident).block p).inSStack = (c.block p).inSStack := by
    rw [hb, Function.update_self]
  have hsize : (((c.delQ p).setType p .hirNonResident).block p).size = (c.block p).size := by
    rw [hb, Function.update_self]
  unfold lirsEvictHead
  dsimp only
  rw [hflag, hsize]
  rw [← hb]
  cases hin : (c.block p).inSStack with
  | true =>
    rw [if_neg (by decide), if_pos rfl]
    exact ⟨rfl, rfl, rfl, rfl, rfl, rfl, rfl⟩
  | false =>
    rw [if_pos (by decide), if_neg (by decide)]
    exact ⟨rfl, rfl, rfl, rfl, rfl, rfl, rfl⟩

theorem LirsInv.machine_evictHead (h : LirsInv c) {rest : List ℕ} (hq : c.qQueue = p :: rest) :
    (lirsEvictHead c p).machine = c.machine.evictOne (c.block p).key := by
  obtain ⟨hinv, hrest, -⟩ := h.evictHead hq
  obtain ⟨hcap, hhir, hmax, hs, htotal, hblock, hheap⟩ := lirsEvictHead_fields c p
  have hmem : p ∈ c.qQueue := by
    rw [hq]
    exact List.mem_cons_self
  have hp := h.shape.mem_heap_of_q hmem
  have hother : ∀ q, q ≠ p → (lirsEvictHead c p).block q = c.block q := fun q hqp => by
    rw [hblock, Function.update_of_ne hqp]
  have hself : ((lirsEvictHead c p).block p).key = (c.block p).key ∧
      ((lirsEvictHead c p).block p).known = { (c.block p).known with type := .hirNonResident } := by
    rw [hblock, Function.update_self]
    exact ⟨rfl, rfl⟩
  have hkeys : ∀ q, ((lirsEvictHead c p).block q).key = (c.block q).key := fun q => by
    by_cases hqp : q = p
    · rw [hqp, hself.1]
    · rw [hother q hqp]
  have hentry : c.machine.entry (c.block p).key = some (c.block p).known := h.entry_of_mem hp
  refine LirsMachine.ext ?_ hhir hmax ?_ ?_ ?_ ?_
  · show subW (lirsEvictHead c p).capacity (lirsEvictHead c p).hirCapacity = _
    rw [hcap, hhir]
    rfl
  · show (lirsEvictHead c p).keys _ = c.keys c.sStack
    rw [hs, keys_congr fun q _ => hkeys q]
  · show (lirsEvictHead c p).keys _ = (c.keys c.qQueue).erase _
    rw [hrest, keys_congr fun q _ => hkeys q, h.keys_erase (fun _ => h.shape.mem_heap_of_q) hp,
      hq, List.erase_cons_head]
  · show (lirsEvictHead c p).entry = Function.update c.entry (c.block p).key
      (if (c.block p).key ∈ c.machine.s then (c.machine.entry (c.block p).key).map _ else none)
    rw [hentry]
    by_cases hin : p ∈ c.sStack
    · rw [if_pos ((h.mem_s hp).mpr hin)]
      rw [if_pos ((h.shape.sFlag p).mp hin).2] at hheap
      rw [h.entry_stored hinv hp hheap hself.1 hother, hself.2]
      rfl
    · rw [if_neg fun hk => hin ((h.mem_s hp).mp hk)]
      rw [if_neg fun hf => hin ((h.shape.sFlag p).mpr ⟨hp, hf⟩)] at hheap
      exact h.entry_freed hinv hp hheap hother
  · show (lirsEvictHead c p).stats.totalSize = subW c.stats.totalSize _
    rw [hentry]
    exact htotal

theorem LirsCache.evict_within {c : LirsCache} (hle : c.qQueue.length ≤ c.hirCapacity) :
    c.machine.evict = c.machine :=
  LirsMachine.evict_of_le (by rw [show c.machine.q.length = _ from List.length_map _]; exact hle)

theorem LirsInv.machine_evictLoop (h : LirsInv c) {n : ℕ} (hn : c.qQueue.length ≤ n) :
    (lirsEvictLoop n c).machine = c.machine.evict := by
  induction n generalizing c with
  | zero =>
    exact (LirsCache.evict_within (hn.trans (Nat.zero_le _))).symm
  | succ n ih =>
    unfold lirsEvictLoop
    cases hq : c.qQueue with
    | nil =>
      have hself : c.machine.evict = c.machine :=
        LirsCache.evict_within (by rw [hq]; exact Nat.zero_le _)
      exact hself.symm
    | cons p rest =>
      simp only [List.head?_cons]
      have hsize := h.shape.qSize
      have hlength : c.machine.q.length = c.qQueue.length := List.length_map _
      by_cases hover : c.hirCapacity < c.qQueueSize
      · rw [if_pos hover]
        obtain ⟨hinv, hrest, -⟩ := h.evictHead hq
        have hlen : (lirsEvictHead c p).qQueue.length ≤ n := by
          rw [hrest]
          rw [hq, List.length_cons] at hn
          omega
        rw [ih hinv hlen, h.machine_evictHead hq]
        refine (LirsMachine.evict_first (c.keys rest) h.keysQ_nodup ?_ ?_).symm
        · show c.keys c.qQueue = _
          rw [hq]
          rfl
        · rw [hlength, ← hsize]
          exact hover
      · rw [if_neg hover]
        refine (LirsCache.evict_within ?_).symm
        rw [← hsize]
        exact Nat.le_of_not_lt hover

/-- **`lirs_evict_hir`** -/
theorem LirsInv.machine_evict (h : LirsInv c) : (lirsEvictHir c).machine = c.machine.evict :=
  h.machine_evictLoop (Nat.le_refl _)

/-! ## promotion -/

/-- The cache changes its lists and the type of one block. -/
theorem LirsInv.machine_retype (h : LirsInv c) (h' : LirsInv c') (hup : Upkeep c c')
    (hcfg : SameConfig c c') (hheap : c'.heap = c.heap) (hp : p ∈ c.heap) {t : LirsBlockType}
    (htypes : c'.types = Function.update c.types p t) :
    c'.machine = { c.machine.setType (c.block p).key t with
      s := c.keys c'.sStack, q := c.keys c'.qQueue, total := c'.stats.totalSize } := by
  have hknown : ∀ q, (c'.block q).known = { (c.block q).known with type := c'.types q } := fun q => by
    unfold LirsBlock.known
    rw [hup.value q, hup.blockSize q]
    rfl
  have hself : (c'.block p).known = { (c.block p).known with type := t } := by
    rw [hknown, htypes, Function.update_self]
  have hentry : c'.entry = Function.update c.entry (c.block p).key (some (c'.block p).known) := by
    funext k
    by_cases hk : k = (c.block p).key
    · rw [hk, Function.update_self, ← hup.key p]
      exact h'.entry_of_mem (hheap ▸ hp)
    · rw [Function.update_of_ne hk]
      refine h.entry_congr h' k (fun q => by rw [hheap, hup.key q]) fun q _ hq => ?_
      have hne : q ≠ p := by
        rintro rfl
        exact hk hq.symm
      rw [hknown, htypes, Function.update_of_ne hne]
      rfl
  refine LirsMachine.ext ?_ hcfg.hirCapacity hup.maxSize (keys_congr fun q _ => hup.key q)
    (keys_congr fun q _ => hup.key q) ?_ rfl
  · show subW c'.capacity c'.hirCapacity = _
    rw [hcfg.capacity, hcfg.hirCapacity]
    rfl
  · show c'.entry = Function.update c.entry (c.block p).key ((c.entry (c.block p).key).map _)
    rw [hentry, hself, h.entry_of_mem hp]
    rfl

theorem LirsMachine.setType_self {a : LirsMachine} (he : a.entry k = some e) :
    a.setType k e.type = a := by
  refine LirsMachine.ext rfl rfl rfl rfl rfl ?_ rfl
  show Function.update a.entry k ((a.entry k).map _) = a.entry
  rw [he]
  exact (congrArg _ he.symm).trans (Function.update_eq_self ..)

/-- The cache changes its lists alone. -/
theorem LirsInv.machine_relist (h : LirsInv c) (h' : LirsInv c') (hup : Upkeep c c')
    (hcfg : SameConfig c c') (hheap : c'.heap = c.heap) (hp : p ∈ c.heap)
    (htypes : c'.types = c.types) :
    c'.machine = { c.machine with
      s := c.keys c'.sStack, q := c.keys c'.qQueue, total := c'.stats.totalSize } := by
  have hself : c.machine.setType (c.block p).key (c.block p).type = c.machine :=
    LirsMachine.setType_self (e := (c.block p).known) (h.entry_of_mem hp)
  have hupd : c'.types = Function.update c.types p (c.block p).type := by
    rw [htypes]
    exact (Function.update_eq_self p c.types).symm
  rw [h.machine_retype h' hup hcfg hheap hp hupd, hself]

theorem LirsInv.machine_promoteBlock (h : LirsInv c) (hs : p ∈ c.sStack)
    (ht : (c.block p).type = .hirResident) :
    (lirsPromoteBlock c p).machine = { c.machine.setType (c.block p).key .lir with
      q := c.machine.q.erase (c.block p).key } := by
  have hp := h.shape.mem_heap_of_s hs
  obtain ⟨hinv, hcfg, hq, hs', -, hheap, htypes⟩ := h.promoteBlock hs ht
  have htotal : (lirsPromoteBlock c p).stats.totalSize = c.stats.totalSize := by
    unfold lirsPromoteBlock
    dsimp only
    split <;> rfl
  rw [h.machine_retype hinv (upkeep_promoteBlock ht) hcfg hheap hp htypes, hq, hs', htotal,
    ← h.keys_erase (fun _ => h.shape.mem_heap_of_q) hp]
  rfl

theorem LirsInv.machine_demoteBottom (h : LirsInv c) :
    (lirsDemoteBottom c).machine = c.machine.demoteBottom := by
  have hlast : c.machine.s.getLast? = c.sStack.getLast?.map fun p => (c.block p).key :=
    keys_getLast? c c.sStack
  unfold LirsMachine.demoteBottom
  rw [hlast]
  cases hl : c.sStack.getLast? with
  | none =>
    unfold lirsDemoteBottom
    rw [hl]
    rfl
  | some p =>
    have hs := List.mem_of_getLast? hl
    have hp := h.shape.mem_heap_of_s hs
    have hup := upkeep_demoteBottom c
    have hinv := h.demoteBottom.1
    unfold lirsDemoteBottom at hup hinv ⊢
    rw [hl] at hup hinv ⊢
    dsimp only [Option.map_some] at hup hinv ⊢
    rw [h.has_eq hp]
    by_cases ht : (c.block p).type = .lir
    · rw [if_pos ht] at hup hinv ⊢
      rw [if_pos (decide_eq_true ht)]
      obtain ⟨-, hcfg, hq, hs', -, hheap, htypes⟩ := h.demoteLir hs ht
      have htypes' : ((lirsDemoteLir c p).delS p).types = Function.update c.types p .hirResident := by
        rw [types_delS, htypes]
      have htotal : ((lirsDemoteLir c p).delS p).stats.totalSize = c.stats.totalSize := by
        unfold lirsDemoteLir
        dsimp only
        split <;> rfl
      have hs1 : ((lirsDemoteLir c p).delS p).sStack = c.sStack.erase p := by
        show (lirsDemoteLir c p).sStack.erase p = _
        rw [hs']
      have hq1 : ((lirsDemoteLir c p).delS p).qQueue = c.qQueue ++ [p] := hq
      have hcfg1 : SameConfig c ((lirsDemoteLir c p).delS p) := ⟨hcfg.capacity, hcfg.hirCapacity⟩
      rw [h.machine_retype hinv hup hcfg1 hheap hp htypes', htotal, hs1, hq1,
        ← h.keys_erase (fun _ => h.shape.mem_heap_of_s) hp]
      unfold LirsCache.keys
      rw [List.map_append]
      rfl
    · rw [if_neg ht, if_neg (by simpa using ht)]

/-- **`lirs_promote_hir`**: there is nothing to evict after it. -/
theorem LirsInv.machine_promote (h : LirsInv c) (hle : c.qQueue.length ≤ c.hirCapacity)
    (hs : p ∈ c.sStack) (ht : (c.block p).type = .hirResident) :
    (lirsPromoteHir c p).machine = c.machine.promote (c.block p).key := by
  have hq := (h.inQ_iff (h.shape.mem_heap_of_s hs)).mp ht
  obtain ⟨hA, hAcfg, hAq, -⟩ := h.promoteBlock hs ht
  obtain ⟨hB, hBcfg, -, hBq, -⟩ := hA.demoteBottom
  obtain ⟨hC, hCf⟩ := hB.prune
  have hpos := List.length_pos_of_mem hq
  have hcfg := (hAcfg.trans hBcfg).trans hCf.config
  have hself : lirsPromoteHir c p = lirsPruneSStack (lirsDemoteBottom (lirsPromoteBlock c p)) := by
    refine hC.evict_self ?_
    rw [hcfg.hirCapacity, hCf.qQueue]
    rw [hAq, List.length_erase_of_mem hq] at hBq
    omega
  rw [hself, hB.machine_prune, hA.machine_demoteBottom, h.machine_promoteBlock hs ht]
  rfl

/-! ## `lirs_get` -/

theorem LirsInv.machine_toTop (h : LirsInv c) (hp : p ∈ c.heap) :
    (if (c.block p).inSStack then c.moveS p else c.addS p).machine =
      c.machine.toTop (c.block p).key := by
  have hinv := h.toTop hp
  have hup := upkeep_toTop c p
  by_cases hs : (c.block p).inSStack = true
  · rw [if_pos hs] at hinv hup ⊢
    rw [h.machine_relist hinv hup ⟨rfl, rfl⟩ rfl hp rfl]
    unfold LirsMachine.toTop
    rw [show c.machine.s.erase (c.block p).key = c.keys (c.sStack.erase p) from
      h.keys_erase (fun _ => h.shape.mem_heap_of_s) hp]
    rfl
  · rw [if_neg hs] at hinv hup ⊢
    have hnot : p ∉ c.sStack := fun hin => hs ((h.shape.sFlag p).mp hin).2
    rw [h.machine_relist hinv hup ⟨rfl, rfl⟩ rfl hp (types_addS c p)]
    unfold LirsMachine.toTop
    rw [show c.machine.s.erase (c.block p).key = c.keys (c.sStack.erase p) from
      h.keys_erase (fun _ => h.shape.mem_heap_of_s) hp, List.erase_of_not_mem hnot]
    rfl

theorem LirsInv.machine_touch (h : LirsInv c) (hp : p ∈ c.heap) :
    (touched c p).machine = c.machine := by
  have hup : Upkeep c (touched c p) := Upkeep.store rfl rfl rfl rfl rfl rfl rfl Iff.rfl
  rw [h.machine_relist (h.touch hp) hup ⟨rfl, rfl⟩ rfl hp (types_touched c p)]
  rfl

/-- A ghost is freed. -/
theorem LirsInv.machine_destroy (h : LirsInv c) (hs : p ∈ c.sStack)
    (ht : (c.block p).type = .hirNonResident) :
    (lirsBlockDestroy ((lirsRemoveHash c p).delS p) p).machine =
      { c.machine with s := c.machine.s.erase (c.block p).key }.forget (c.block p).key := by
  have hp := h.shape.mem_heap_of_s hs
  have hinv : LirsInv (lirsBlockDestroy ((lirsRemoveHash c p).delS p) p) := h.destroy hs ht
  have hkeys : ∀ q, ((c.delS p).block q).key = (c.block q).key := fun q => by
    by_cases hqp : q = p <;> simp [LirsCache.delS, hqp]
  refine LirsMachine.ext rfl rfl rfl ?_ (keys_congr fun q _ => hkeys q) ?_ rfl
  · refine (keys_congr fun q _ => hkeys q).trans ?_
    exact (h.keys_erase (fun _ => h.shape.mem_heap_of_s) hp).symm
  · refine h.entry_freed hinv hp rfl fun q hqp => ?_
    show Function.update c.block p _ q = c.block q
    rw [Function.update_of_ne hqp]

theorem LirsInv.machine_getHirResident (h : LirsInv c) (hle : c.qQueue.length ≤ c.hirCapacity)
    (hp : p ∈ c.heap) (ht : (c.block p).type = .hirResident) :
    (lirsGetHirResident c p).machine =
      (if (c.block p).key ∈ c.machine.s then c.machine.promote (c.block p).key
        else c.machine).toTop (c.block p).key := by
  unfold lirsGetHirResident
  extract_lets stats c1 c2 c3
  have h1 : LirsInv c1 := h.withStats rfl rfl
  have h2 : LirsInv c2 ∧ c2.qQueue.length ≤ c2.hirCapacity ∧ p ∈ c2.heap ∧
      (c2.block p).key = (c.block p).key ∧
      c2.machine = if (c.block p).key ∈ c.machine.s then c.machine.promote (c.block p).key
        else c.machine := by
    by_cases hs : p ∈ c.sStack
    · have hflag : (c1.block p).inSStack = true := ((h.shape.sFlag p).mp hs).2
      have hs1 : p ∈ c1.sStack := hs
      have hc2 : c2 = lirsPromoteHir c1 p := if_pos hflag
      obtain ⟨hk, hmem, -⟩ := h1.promote hle hs1 ht
      rw [if_pos ((h.mem_s hp).mpr hs), hc2]
      refine ⟨hk.inv, ?_, hmem, (h1.upkeep_promote hs1 ht).key p, h1.machine_promote hle hs1 ht⟩
      rw [hk.config.hirCapacity]
      exact hk.queue
    · have hflag : ¬ (c1.block p).inSStack = true := fun hf =>
        hs ((h.shape.sFlag p).mpr ⟨hp, hf⟩)
      have hc2 : c2 = c1 := if_neg hflag
      rw [if_neg fun hk => hs ((h.mem_s hp).mp hk), hc2]
      exact ⟨h1, hle, hp, rfl, rfl⟩
  obtain ⟨hinv2, hle2, hp2, hkey2, hmachine2⟩ := h2
  have hinv3 : LirsInv c3 := hinv2.toTop hp2
  have hmachine3 : c3.machine = c2.machine.toTop (c.block p).key := by
    rw [← hkey2]
    exact hinv2.machine_toTop hp2
  have h3 : p ∈ c3.heap ∧ c3.qQueue.length ≤ c3.hirCapacity := by
    by_cases hs : (c2.block p).inSStack = true
    · have hc3 : c3 = c2.moveS p := if_pos hs
      rw [hc3]
      exact ⟨hp2, hle2⟩
    · have hc3 : c3 = c2.addS p := if_neg hs
      rw [hc3]
      exact ⟨hp2, hle2⟩
  rw [if_neg (hinv3.not_unqueued h3.1), hinv3.evict_self h3.2, hmachine3, hmachine2]

/-- **`lirs_get`** -/
theorem LirsInv.machine_get (h : LirsInv c) (hle : c.qQueue.length ≤ c.hirCapacity) (key : ℕ) :
    (lirsGet c key).1.machine = (c.machine.get key).1 ∧
      (lirsGet c key).2 = (c.machine.get key).2 := by
  have hvalue := (h.get_spec hle key).2
  rw [hvalue]
  unfold LirsMachine.get
  by_cases hk : key = 0
  · unfold lirsGet
    rw [if_pos hk, if_pos hk, if_pos hk]
    exact ⟨rfl, rfl⟩
  rw [if_neg hk, if_neg hk]
  cases hf : lirsFindBlock c key with
  | none =>
    have hentry : c.machine.entry key = none := h.entry_none (h.find_none hf)
    unfold lirsGet
    rw [if_neg hk, hf, hentry]
    exact ⟨rfl, rfl⟩
  | some p =>
    obtain ⟨hp, hkey⟩ := h.find_some hf
    subst hkey
    have hentry : c.machine.entry (c.block p).key = some (c.block p).known := h.entry_of_mem hp
    have h1 := h.touch hp
    have hp1 : p ∈ (touched c p).heap := hp
    have htype : ((touched c p).block p).type = (c.block p).type := congrFun (types_touched c p) p
    have hkey1 : ((touched c p).block p).key = (c.block p).key := by
      show (Function.update c.block p _ p).key = _
      rw [Function.update_self]
    have hmachine1 := h.machine_touch hp
    rw [lirsGet_found hk hf, hentry]
    cases ht : (c.block p).type with
    | lir =>
      have hknown : (c.block p).known.type = .lir := ht
      dsimp only
      rw [hknown]
      refine ⟨?_, if_neg (by rw [ht]; decide)⟩
      unfold lirsGetLir
      extract_lets stats c1
      have h2 : LirsInv c1 := h1.withStats rfl rfl
      rw [(h2.toTop hp1).machine_prune, h2.machine_toTop hp1, ← hmachine1, ← hkey1]
      rfl
    | hirResident =>
      have hknown : (c.block p).known.type = .hirResident := ht
      dsimp only
      rw [hknown]
      refine ⟨?_, if_neg (by rw [ht]; decide)⟩
      rw [h1.machine_getHirResident hle hp1 (htype.trans ht), hmachine1, hkey1]
    | hirNonResident =>
      have hknown : (c.block p).known.type = .hirNonResident := ht
      dsimp only
      rw [hknown]
      have hflag := (h1.blocks p hp1).stacked (by rw [htype, ht]; decide)
      refine ⟨?_, if_pos ht⟩
      unfold lirsGetHirNonResident
      extract_lets stats c1
      have h2 : LirsInv c1 := h1.withStats rfl rfl
      have hs : p ∈ c1.sStack := (h1.shape.sFlag p).mpr ⟨hp1, hflag⟩
      have ht1 : (c1.block p).type = .hirNonResident := htype.trans ht
      have hflag1 : (c1.block p).inSStack = true := hflag
      have hdestroy : LirsInv (lirsBlockDestroy ((lirsRemoveHash c1 p).delS p) p) :=
        h2.destroy hs ht1
      rw [if_pos hflag1, hdestroy.machine_prune, h2.machine_destroy hs ht1, ← hmachine1, ← hkey1]
      rfl

/-! ## `lirs_put` -/

/-- A block is overwritten, the counter of the bytes with it. -/
theorem LirsInv.machine_putExisting (h : LirsInv c) (hp : p ∈ c.heap) (value size : ℕ) :
    (lirsPutExisting c p value size).machine =
      if (c.block p).value ≠ value then
        { c.machine with
          entry := Function.update c.machine.entry (c.block p).key
            (some { (c.block p).known with value := value, size := size })
          total := addW (subW c.machine.total (c.block p).size) size }
      else c.machine := by
  by_cases hv : (c.block p).value = value
  · rw [if_neg (not_not.mpr hv)]
    unfold lirsPutExisting
    rw [if_neg (not_not.mpr hv)]
  · have hinv := (h.putExisting hp value size).1
    obtain ⟨hheap, hmax, -, hblock, htotal, -⟩ := putExisting_fields c p value size hv
    have hother : ∀ q, q ≠ p → (lirsPutExisting c p value size).block q = c.block q := fun q hqp => by
      rw [hblock, Function.update_of_ne hqp]
    have hkeys : ∀ q, ((lirsPutExisting c p value size).block q).key = (c.block q).key := fun q => by
      by_cases hqp : q = p
      · rw [hqp, hblock, Function.update_self]
      · rw [hother q hqp]
    have hknown : ((lirsPutExisting c p value size).block p).known =
        { (c.block p).known with value := value, size := size } := by
      rw [hblock, Function.update_self]
      rfl
    have hlists : (lirsPutExisting c p value size).capacity = c.capacity ∧
        (lirsPutExisting c p value size).hirCapacity = c.hirCapacity ∧
        (lirsPutExisting c p value size).sStack = c.sStack ∧
        (lirsPutExisting c p value size).qQueue = c.qQueue := by
      unfold lirsPutExisting
      dsimp only
      rw [if_pos hv]
      exact ⟨rfl, rfl, rfl, rfl⟩
    obtain ⟨hcap, hhir, hs, hq⟩ := hlists
    rw [if_pos hv]
    refine LirsMachine.ext ?_ hhir hmax ?_ ?_ ?_ htotal
    · show subW (lirsPutExisting c p value size).capacity _ = _
      rw [hcap, hhir]
      rfl
    · show (lirsPutExisting c p value size).keys _ = c.keys c.sStack
      rw [hs, keys_congr fun q _ => hkeys q]
    · show (lirsPutExisting c p value size).keys _ = c.keys c.qQueue
      rw [hq, keys_congr fun q _ => hkeys q]
    · rw [← hknown]
      exact h.entry_stored hinv hp hheap (hkeys p) hother

/-- Making room prunes S, and that only when there is no room. -/
theorem LirsInv.machine_makeRoom (h : LirsInv c) (hle : c.qQueue.length ≤ c.hirCapacity)
    (size : ℕ) :
    (lirsMakeRoom c size).machine = if c.full size then c.machine.prune else c.machine := by
  unfold lirsMakeRoom
  by_cases hfull : c.full size = true
  · rw [if_pos hfull, if_pos hfull, h.evict_self hle]
    dsimp only
    rw [hfull, Bool.true_and]
    cases hs : c.sStack with
    | nil =>
      have hself : c.machine.prune = c.machine := by
        refine LirsMachine.prune_of_lir fun k hk => ?_
        have hk' : (c.keys c.sStack).getLast? = some k := hk
        rw [hs] at hk'
        cases hk'
      exact hself.symm
    | cons p rest => exact h.machine_prune
  · rw [if_neg hfull, if_neg hfull]

/-- A block for a new key. -/
theorem LirsInv.machine_entered (h : LirsInv c) (hp : p ∉ c.heap) (value size : ℕ)
    (hk : ∀ q ∈ c.heap, (c.block q).key ≠ k) :
    (entered c p k value size).machine = c.machine.insert k value size := by
  have hinv := h.newBlock hp value size hk
  obtain ⟨hcfg, -, hheap, hs, -⟩ := entered_fields c p k value size
  obtain ⟨hq, -⟩ := entered_queue c p k value size
  obtain ⟨hmax, -, -, htotal⟩ := entered_rest c p k value size
  have hself := entered_self c p k value size
  have hother : ∀ q, q ≠ p → (entered c p k value size).block q = c.block q := fun q hne =>
    entered_other c p k value size hne
  have hkey : ((entered c p k value size).block p).key = k := by rw [hself]
  have hroom : decide (c.machine.s.length < c.machine.lirCapacity) = decide (RoomForLir c) := by
    refine decide_eq_decide.mpr ?_
    show _ ↔ c.sStackSize < subW c.capacity c.hirCapacity
    rw [h.shape.sSize, show c.machine.s.length = _ from List.length_map _]
    rfl
  have hlist : ∀ l : List ℕ, p ∉ l → (entered c p k value size).keys l = c.keys l := fun l hl =>
    keys_congr fun q hql => by rw [hother q fun he => hl (he ▸ hql)]
  have hs0 : p ∉ c.sStack := fun hin => hp (h.shape.mem_heap_of_s hin)
  have hq0 : p ∉ c.qQueue := fun hin => hp (h.shape.mem_heap_of_q hin)
  unfold LirsMachine.insert
  rw [hroom]
  refine LirsMachine.ext ?_ hcfg.hirCapacity hmax ?_ ?_ ?_ htotal
  · show subW (entered c p k value size).capacity (entered c p k value size).hirCapacity = _
    rw [hcfg.capacity, hcfg.hirCapacity]
    rfl
  · show (entered c p k value size).keys _ = k :: c.keys c.sStack
    rw [hs, ← hlist c.sStack hs0]
    exact congrArg (· :: _) hkey
  · show (entered c p k value size).keys _ = if _ then c.keys c.qQueue else c.keys c.qQueue ++ [k]
    rw [hq, ← hlist c.qQueue hq0]
    by_cases hr : RoomForLir c
    · rw [if_pos hr, if_pos (decide_eq_true hr)]
    · rw [if_neg hr, if_neg (by simpa using hr)]
      unfold LirsCache.keys
      rw [List.map_append]
      exact congrArg (_ ++ [·]) hkey
  · funext j
    show (entered c p k value size).entry j = Function.update c.entry k _ j
    have hmem : p ∈ (entered c p k value size).heap := by
      rw [hheap]
      exact List.mem_cons_self
    by_cases hj : j = k
    · subst hj
      rw [Function.update_self]
      have hentry := hinv.entry_of_mem hmem
      rw [hkey, hself] at hentry
      rw [hentry]
      by_cases hr : RoomForLir c <;> simp [hr, LirsBlock.known]
    · rw [Function.update_of_ne hj]
      refine h.entry_congr hinv j (fun q => ?_) fun q hq _ => ?_
      · rw [hheap, List.mem_cons]
        constructor
        · rintro ⟨rfl | hin, he⟩
          · exact absurd (he.symm.trans hkey) hj
          · have hne : q ≠ p := fun he' => hp (he' ▸ hin)
            exact ⟨hin, hother q hne ▸ he⟩
        · rintro ⟨hin, he⟩
          have hne : q ≠ p := fun he' => hp (he' ▸ hin)
          exact ⟨Or.inr hin, (hother q hne).symm ▸ he⟩
      · rw [hother q fun he' => hp (he' ▸ hq)]

/-- **`lirs_put`** -/
theorem LirsInv.machine_put (h : LirsInv c) (hle : c.qQueue.length ≤ c.hirCapacity)
    (key value size : ℕ) {mem : Option ℕ} (hmem : ∀ p, mem = some p → p ∉ c.heap) :
    (lirsPut c key value size mem).1.machine = (c.machine.put key value size mem.isSome).1 ∧
      (lirsPut c key value size mem).2 = (c.machine.put key value size mem.isSome).2 := by
  unfold lirsPut LirsMachine.put
  by_cases hk : key = 0
  · rw [if_pos hk, if_pos hk]
    exact ⟨rfl, rfl⟩
  rw [if_neg hk, if_neg hk]
  cases hf : lirsFindBlock c key with
  | some p =>
    obtain ⟨hp, hkey⟩ := h.find_some hf
    subst hkey
    have hentry : c.machine.entry (c.block p).key = some (c.block p).known := h.entry_of_mem hp
    rw [hentry]
    exact ⟨h.machine_putExisting hp value size, rfl⟩
  | none =>
    have hentry : c.machine.entry key = none := h.entry_none (h.find_none hf)
    have hfull : c.machine.full size = c.full size := rfl
    have hroom := h.machine_makeRoom hle size
    rw [hentry, hfull]
    dsimp only
    rw [h.full_makeRoom hle size]
    by_cases hover : c.full size = true
    · rw [if_pos hover] at hroom
      rw [if_pos hover, if_pos hover]
      exact ⟨hroom, rfl⟩
    rw [if_neg hover, if_neg hover]
    have hself : lirsMakeRoom c size = c := if_neg hover
    rw [hself]
    cases mem with
    | none => exact ⟨rfl, rfl⟩
    | some p =>
      have hp := hmem p rfl
      have hinv := h.newBlock hp value size (h.find_none hf)
      refine ⟨?_, rfl⟩
      show (lirsEvictHir (lirsPruneSStack (entered c p key value size))).machine =
        ((c.machine.insert key value size).prune).evict
      rw [hinv.prune.1.machine_evict, hinv.machine_prune,
        h.machine_entered hp value size (h.find_none hf)]

/-! ## `lirs_remove` -/

/-- A block that is taken off its lists; it need not be on either. -/
theorem LirsInv.unlisted_lists (h : LirsInv c) (p : ℕ) :
    (unlisted c p).sStack = c.sStack.erase p ∧ (unlisted c p).qQueue = c.qQueue.erase p := by
  have hs : (c.block p).inSStack = false → c.sStack.erase p = c.sStack := fun hf =>
    List.erase_of_not_mem fun hin => Bool.false_ne_true (hf.symm.trans ((h.shape.sFlag p).mp hin).2)
  have hq : (c.block p).inQQueue = false → c.qQueue.erase p = c.qQueue := fun hf =>
    List.erase_of_not_mem fun hin => Bool.false_ne_true (hf.symm.trans ((h.shape.qFlag p).mp hin).2)
  unfold unlisted
  cases hfs : (c.block p).inSStack <;> cases hfq : (c.block p).inQQueue <;>
    simp [LirsCache.delS, LirsCache.delQ, hfs, hfq, hs, hq]

theorem LirsInv.machine_removed (h : LirsInv c) (hp : p ∈ c.heap) :
    (removed c p).machine =
      { c.machine with
        s := c.machine.s.erase (c.block p).key
        q := c.machine.q.erase (c.block p).key
        total := subW c.machine.total (c.block p).size }.forget (c.block p).key := by
  have hinv := (h.takeOut hp).1
  obtain ⟨-, -, -, -, hcfg, -, -, -, -⟩ := h.shape.unlisted hp
  obtain ⟨hs, hq⟩ := h.unlisted_lists p
  obtain ⟨hmax, -, hheap, hother, htotal, -⟩ := removed_fields c p
  have hlist : ∀ l : List ℕ, l.Nodup → (removed c p).keys (l.erase p) = c.keys (l.erase p) :=
    fun l hl => keys_congr fun q hql => by rw [hother q (hl.mem_erase_iff.mp hql).1]
  refine LirsMachine.ext ?_ hcfg.hirCapacity hmax ?_ ?_ (h.entry_freed hinv hp hheap hother) htotal
  · show subW (unlisted c p).capacity (unlisted c p).hirCapacity = _
    rw [hcfg.capacity, hcfg.hirCapacity]
    rfl
  · show (removed c p).keys (unlisted c p).sStack = (c.keys c.sStack).erase _
    rw [hs, hlist _ h.shape.sNodup, h.keys_erase (fun _ => h.shape.mem_heap_of_s) hp]
  · show (removed c p).keys (unlisted c p).qQueue = (c.keys c.qQueue).erase _
    rw [hq, hlist _ h.shape.qNodup, h.keys_erase (fun _ => h.shape.mem_heap_of_q) hp]

/-- **`lirs_remove`** -/
theorem LirsInv.machine_remove (h : LirsInv c) (key : ℕ) :
    (lirsRemove c key).1.machine = (c.machine.remove key).1 ∧
      (lirsRemove c key).2 = (c.machine.remove key).2 := by
  unfold lirsRemove LirsMachine.remove
  by_cases hk : key = 0
  · rw [if_pos hk, if_pos hk]
    exact ⟨rfl, rfl⟩
  rw [if_neg hk, if_neg hk]
  cases hf : lirsFindBlock c key with
  | none =>
    have hentry : c.machine.entry key = none := h.entry_none (h.find_none hf)
    rw [hentry]
    exact ⟨rfl, rfl⟩
  | some p =>
    obtain ⟨hp, hkey⟩ := h.find_some hf
    subst hkey
    have hentry : c.machine.entry (c.block p).key = some (c.block p).known := h.entry_of_mem hp
    have hinv := (h.takeOut hp).1
    rw [hentry]
    refine ⟨?_, rfl⟩
    show (lirsRemoveBlock c p).machine = _
    rw [lirsRemoveBlock_eq, hinv.machine_prune, h.machine_removed hp]
    rfl

/-! ## runs -/

theorem LirsInv.machine_step (h : LirsInv c) (hle : c.qQueue.length ≤ c.hirCapacity) (op : LirsOp)
    (hfresh : op.FreshMemory c) :
    (c.step op).machine = c.machine.step op ∧ c.reply op = c.machine.reply op := by
  cases op with
  | get key =>
    obtain ⟨hstep, hreply⟩ := h.machine_get hle key
    exact ⟨hstep, congrArg LirsReply.value hreply⟩
  | put key value size mem =>
    obtain ⟨hstep, hreply⟩ := h.machine_put hle key value size hfresh
    exact ⟨hstep, congrArg LirsReply.code hreply⟩
  | remove key =>
    obtain ⟨hstep, hreply⟩ := h.machine_remove key
    exact ⟨hstep, congrArg LirsReply.code hreply⟩

theorem LirsInv.machine_run (h : LirsInv c) (hle : c.qQueue.length ≤ c.hirCapacity) (ops : List LirsOp)
    (hfresh : Runs.Each LirsCache.step LirsOp.FreshMemory c ops) :
    (Runs.after LirsCache.step c ops).machine = Runs.after LirsMachine.step c.machine ops ∧
      c.replies ops = c.machine.replies ops := by
  induction ops generalizing c with
  | nil => exact ⟨rfl, rfl⟩
  | cons op ops ih =>
    obtain ⟨hop, hops⟩ := hfresh
    obtain ⟨hstep, hreply⟩ := h.machine_step hle op hop
    obtain ⟨hinv, hle'⟩ := lirs_inv_step c op ⟨h, hle⟩ hop
    obtain ⟨hafter, hreplies⟩ := ih hinv hle' hops
    rw [hstep] at hafter hreplies
    refine ⟨hafter, ?_⟩
    show c.reply op :: _ = c.machine.reply op :: _
    rw [hreply, hreplies]

/-- The machine starts empty. -/
theorem machine_create {capacity maxSize : ℕ} {cacheOk tableOk : Bool}
    (hc : lirsCreate capacity maxSize cacheOk tableOk = some c) :
    c.machine = LirsMachine.start capacity maxSize := by
  unfold lirsCreate at hc
  rcases cacheOk with _ | _
  · exact absurd hc (by simp)
  cases hsize : hashSizeLoop 65 1 (capacity * 2 % wordSize) with
  | none =>
    rw [hsize] at hc
    exact absurd hc (by simp)
  | some hashSize =>
    rw [hsize] at hc
    rcases tableOk with _ | _
    · exact absurd hc (by simp)
    cases hc
    rfl

/-- **The LIRS cache refines the machine on keys**: over every run from `lirs_create` it replies what
the machine does, and at its end it stands for the state of the machine. -/
theorem lirs_refines {capacity maxSize : ℕ} {cacheOk tableOk : Bool}
    (hc : lirsCreate capacity maxSize cacheOk tableOk = some c) (ops : List LirsOp)
    (hfresh : Runs.Each LirsCache.step LirsOp.FreshMemory c ops) :
    c.replies ops = (LirsMachine.start capacity maxSize).replies ops ∧
      (Runs.after LirsCache.step c ops).machine =
        Runs.after LirsMachine.step (LirsMachine.start capacity maxSize) ops := by
  obtain ⟨hinv, hle, -⟩ := lirsCreate_inv hc
  obtain ⟨hafter, hreplies⟩ := hinv.machine_run hle ops hfresh
  rw [machine_create hc] at hafter hreplies
  exact ⟨hreplies, hafter⟩

/-- A run in which a key is evicted and one is removed. -/
theorem lirs_refines_small :
    ((lirsCreate 3 1000 true true).get rfl).replies
        [.put 16 1 10 (some 100), .put 32 2 10 (some 200), .get 32, .get 16, .remove 32] =
      (LirsMachine.start 3 1000).replies
        [.put 16 1 10 (some 100), .put 32 2 10 (some 200), .get 32, .get 16, .remove 32] ∧
      (Runs.after LirsCache.step ((lirsCreate 3 1000 true true).get rfl)
        [.put 16 1 10 (some 100), .put 32 2 10 (some 200), .get 32, .get 16, .remove 32]).machine =
      Runs.after LirsMachine.step (LirsMachine.start 3 1000)
        [.put 16 1 10 (some 100), .put 32 2 10 (some 200), .get 32, .get 16, .remove 32] := by
  refine lirs_refines (Option.some_get _).symm _ ⟨?_, ?_, trivial, trivial, trivial, trivial⟩
  · intro p hp
    cases hp
    decide
  · intro p hp
    cases hp
    decide

end

end Nomalloc
