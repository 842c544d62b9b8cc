import Mathlib.Data.List.Nodup
import Mathlib.Data.Nat.ModEq
import Nomalloc.Core.Lifecycle
import Nomalloc.Utils.TicketLock

/-!
# The thread caches of the allocator

`allocator_get_tcache` makes a cache for a thread that has none, and puts it into the table that
`allocator_shutdown` walks.  Its place there is numbered by a counter of the whole process, which is
not set back when the allocator is shut down.

* `TcacheRegistry`          the allocator with its table of thread caches, the counter, and the values
                            of the pthread keys: `allocatorInit`, `allocatorShutdown`,
                            `allocatorGetTcache`;
* `RegistryInv`             the table holds the caches that were made since the allocator came up;
* `shutdown_destroys_iff`   a shutdown destroys each of them exactly as long as their numbers fit the
                            table.

The calls of the threads are modelled one after another; `tcache_destroy` is a pointer in the result
of `allocatorShutdown`.
-/

namespace Nomalloc

def MAX_THREADS : ℕ := 1024

/-- The `int` of a 32-bit word. -/
def toInt (v : ℕ) : ℤ := Int.bmod v (2 ^ 32)

/-- The allocator with its thread caches; `specific key thread` is the value of a pthread key,
`tcaches i` for a negative `i` is what lies before the table, and `tcacheIdCounter` the 32 bits of
`tcache_id_counter` that are read. -/
structure TcacheRegistry where
  life : Lifecycle
  tcaches : ℤ → ℕ
  tcacheIdCounter : ℕ
  specific : ℕ → ℕ → ℕ

namespace TcacheRegistry

/-- `memset(&g_allocator, 0, sizeof(g_allocator))` -/
def clearTable (tcaches : ℤ → ℕ) : ℤ → ℕ := fun i =>
  if 0 ≤ i ∧ i < MAX_THREADS then 0 else tcaches i

/-- `pthread_key_create` gives every thread the value NULL. -/
def newKey (specific : ℕ → ℕ → ℕ) : Option ℕ → ℕ → ℕ → ℕ
  | none => specific
  | some key => Function.update specific key fun _ => 0

/-- `allocator_init` -/
def allocatorInit (r : TcacheRegistry) (env : InitEnv) : ℤ × TcacheRegistry :=
  let (rc, life) := r.life.init env
  if r.life.initialized ∨ r.life.initializing then (rc, { r with life := life })
  else
    (rc, { r with
      life := life
      tcaches := clearTable r.tcaches
      specific := if rc = 0 then newKey r.specific env.key else r.specific })

/-- `allocator_shutdown`, with the calls of `tcache_destroy`. -/
def allocatorShutdown (r : TcacheRegistry) : TcacheRegistry × List ℕ :=
  if !r.life.initialized then ({ r with life := r.life.shutdown }, [])
  else
    ({ r with life := r.life.shutdown, tcaches := clearTable r.tcaches },
      ((List.range MAX_THREADS).filter fun i : ℕ => r.tcaches i ≠ 0).map fun i : ℕ => r.tcaches i)

/-- `allocator_get_tcache` of a thread, with the answer of `tcache_create`. -/
def allocatorGetTcache (r : TcacheRegistry) (thread : ℕ) (answer : Option ℕ) :
    TcacheRegistry × ℕ :=
  let tcache := r.specific r.life.tcacheKey thread
  if tcache ≠ 0 then (r, tcache)
  else
    match answer with
    | none => (r, 0)
    | some tcache =>
      let id := toInt (atomic32IncFetch 32 r.tcacheIdCounter)
      ({ r with
          specific := Function.update r.specific r.life.tcacheKey
            (Function.update (r.specific r.life.tcacheKey) thread tcache)
          tcacheIdCounter := atomic32Inc 32 r.tcacheIdCounter
          tcaches := if id < MAX_THREADS then Function.update r.tcaches id tcache else r.tcaches },
        tcache)

end TcacheRegistry

/-- A call; a thread that has no cache gets one at `fresh`. -/
inductive RegistryOp where
  | init (env : InitEnv)
  | shutdown
  | getTcache (thread fresh : ℕ)

/-- The allocator, the caches made since it came up, in order, and how many were made before. -/
structure RegistrySys where
  reg : TcacheRegistry
  created : List ℕ
  earlier : ℕ

namespace RegistrySys

/-- A thread has no cache. -/
def Misses (s : RegistrySys) (thread : ℕ) : Prop := s.reg.specific s.reg.life.tcacheKey thread = 0

instance (s : RegistrySys) (thread : ℕ) : Decidable (s.Misses thread) :=
  inferInstanceAs (Decidable (_ = 0))

def step (s : RegistrySys) : RegistryOp → RegistrySys
  | .init env => { s with reg := (s.reg.allocatorInit env).2 }
  | .shutdown => ⟨s.reg.allocatorShutdown.1, [], s.earlier + s.created.length⟩
  | .getTcache thread fresh =>
    { s with
      reg := (s.reg.allocatorGetTcache thread (some fresh)).1
      created := if s.Misses thread then s.created ++ [fresh] else s.created }

/-- The program starts with everything zero. -/
def start : RegistrySys := ⟨⟨LifeSys.start.g, fun _ => 0, 0, fun _ _ => 0⟩, [], 0⟩

end RegistrySys

/-- Threads ask for their cache while the allocator is up; libc's memory is new. -/
def RegistryOp.Legal (s : RegistrySys) : RegistryOp → Prop
  | .getTcache _ fresh => s.reg.life.initialized = true ∧ fresh ≠ 0 ∧ fresh ∉ s.created
  | _ => True

/-- A shutdown destroys each cache that was made since the allocator came up, once. -/
def RegistryOp.DestroysEach (s : RegistrySys) : RegistryOp → Prop
  | .shutdown => ∀ t ∈ s.created, s.reg.allocatorShutdown.2.count t = 1
  | _ => True

/-- A place in the table. -/
def InTable (i : ℤ) : Prop := 0 ≤ i ∧ i < MAX_THREADS

/-- The numbers of the caches made since the allocator came up are places in the table. -/
def RegistryOp.NumbersFit (s : RegistrySys) : RegistryOp → Prop
  | .shutdown => ∀ j < s.created.length, InTable (toInt (s.earlier + 1 + j))
  | _ => True

/-- The table holds caches that were made since the allocator came up, under their numbers, and all
of them where the numbers fit. -/
structure RegistryInv (s : RegistrySys) : Prop where
  counter : s.reg.tcacheIdCounter = (s.earlier + s.created.length) % 2 ^ 32
  nodup : s.created.Nodup
  nonNull : 0 ∉ s.created
  down : s.reg.life.initialized = false → s.created = []
  only : ∀ i, InTable i → s.reg.tcaches i = 0 ∨
    ∃ j, s.created[j]? = some (s.reg.tcaches i) ∧ toInt (s.earlier + 1 + j) = i
  all : (∀ j < s.created.length, InTable (toInt (s.earlier + 1 + j))) →
    ∀ j t, s.created[j]? = some t → s.reg.tcaches (toInt (s.earlier + 1 + j)) = t

/-! ## the numbers -/

/-- The places in the table are the numbers whose low 32 bits are small. -/
theorem toInt_inTable {n : ℕ} : InTable (toInt n) ↔ n % 2 ^ 32 < MAX_THREADS := by
  have hmax : MAX_THREADS = 1024 := rfl
  unfold InTable toInt Int.bmod
  dsimp only
  split_ifs <;> omega

theorem toInt_eq {n : ℕ} (h : InTable (toInt n)) : toInt n = (n % 2 ^ 32 : ℕ) := by
  have hmax : MAX_THREADS = 1024 := rfl
  have hlt := toInt_inTable.mp h
  unfold toInt Int.bmod
  dsimp only
  split_ifs <;> omega

theorem toInt_next (n : ℕ) : toInt (atomic32IncFetch 32 (n % 2 ^ 32)) = toInt (n + 1) := by
  unfold toInt atomic32IncFetch atomic32Inc Int.bmod
  dsimp only
  split_ifs <;> omega

/-- Short of the limit every number fits. -/
theorem toInt_fits {e n : ℕ} (h : e + n < MAX_THREADS) : ∀ j < n, InTable (toInt (e + 1 + j)) := by
  have hmax : MAX_THREADS = 1024 := rfl
  intro j hj
  exact toInt_inTable.mpr (by omega)

/-- Numbers that follow each other and are all in the table are distinct. -/
theorem toInt_ne {e j n : ℕ} (h : ∀ i ≤ n, InTable (toInt (e + i))) (hj : j < n) :
    toInt (e + j) ≠ toInt (e + n) := by
  intro he
  have hmax : MAX_THREADS = 1024 := rfl
  have h1 := toInt_inTable.mp (h j (Nat.le_of_lt hj))
  rw [toInt_eq (h j (Nat.le_of_lt hj)), toInt_eq (h n (Nat.le_refl n))] at he
  -- the number 1024 behind the first one is outside
  have h2 := fun hle => toInt_inTable.mp (h (j + MAX_THREADS) hle)
  omega

namespace RegistryInv

variable {s : RegistrySys}

theorem start : RegistryInv RegistrySys.start := by
  refine ⟨rfl, List.nodup_nil, List.not_mem_nil, fun _ => rfl, fun i _ => .inl rfl, fun _ j t hj => ?_⟩
  cases hj

/-! ## the steps -/

/-- `allocator_init` of an allocator that is up does nothing, and else it clears the table. -/
theorem init (h : RegistryInv s) (env : InitEnv) : RegistryInv (s.step (.init env)) := by
  have hup : s.reg.life.initialized = true → (s.reg.allocatorInit env).2 = s.reg := by
    intro hup
    unfold TcacheRegistry.allocatorInit
    rw [Lifecycle.init_up hup]
    dsimp only
    rw [if_pos (.inl hup)]
  cases hinit : s.reg.life.initialized with
  | true =>
    have he : s.step (.init env) = s := by
      show { s with reg := (s.reg.allocatorInit env).2 } = s
      rw [hup hinit]
    rw [he]
    exact h
  | false =>
    have hnone : s.created = [] := h.down hinit
    have hsame : (s.reg.allocatorInit env).2.tcacheIdCounter = s.reg.tcacheIdCounter ∧
        ∀ i, InTable i → (s.reg.allocatorInit env).2.tcaches i = 0 := by
      unfold TcacheRegistry.allocatorInit
      split_ifs with hin
      · refine ⟨rfl, fun i hi => (h.only i hi).resolve_right ?_⟩
        rintro ⟨j, hj, -⟩
        rw [hnone] at hj
        cases hj
      · exact ⟨rfl, fun i hi => if_pos hi⟩
    refine ⟨hsame.1.trans h.counter, h.nodup, h.nonNull, fun _ => hnone,
      fun i hi => .inl (hsame.2 i hi), fun _ j t hj => ?_⟩
    have hj : s.created[j]? = some t := hj
    rw [hnone] at hj
    cases hj

theorem shutdown (h : RegistryInv s) : RegistryInv (s.step .shutdown) := by
  have hsame : s.reg.allocatorShutdown.1.tcacheIdCounter = s.reg.tcacheIdCounter ∧
      ∀ i, InTable i → s.reg.allocatorShutdown.1.tcaches i = 0 := by
    unfold TcacheRegistry.allocatorShutdown
    cases hinit : s.reg.life.initialized with
    | false =>
      have hnone : s.created = [] := h.down hinit
      refine ⟨rfl, fun i hi => (h.only i hi).resolve_right ?_⟩
      rintro ⟨j, hj, -⟩
      rw [hnone] at hj
      cases hj
    | true => exact ⟨rfl, fun i hi => if_pos hi⟩
  refine ⟨hsame.1.trans h.counter, List.nodup_nil, List.not_mem_nil, fun _ => rfl,
    fun i hi => .inl (hsame.2 i hi), fun _ j t hj => ?_⟩
  cases hj

theorem getTcache_hit {thread fresh : ℕ} (hhit : ¬ s.Misses thread) :
    s.step (.getTcache thread fresh) = s := by
  have he : s.reg.allocatorGetTcache thread (some fresh) =
      (s.reg, s.reg.specific s.reg.life.tcacheKey thread) := if_pos hhit
  unfold RegistrySys.step
  dsimp only
  rw [he, if_neg hhit]

theorem allocatorGetTcache_miss {r : TcacheRegistry} {thread : ℕ}
    (hzero : r.specific r.life.tcacheKey thread = 0) (fresh : ℕ) :
    r.allocatorGetTcache thread (some fresh) =
      (⟨r.life, if toInt (atomic32IncFetch 32 r.tcacheIdCounter) < MAX_THREADS then
          Function.update r.tcaches (toInt (atomic32IncFetch 32 r.tcacheIdCounter)) fresh
        else r.tcaches, atomic32Inc 32 r.tcacheIdCounter,
        Function.update r.specific r.life.tcacheKey
          (Function.update (r.specific r.life.tcacheKey) thread fresh)⟩, fresh) :=
  if_neg (not_not.mpr hzero)

theorem fields_of_eq {r : TcacheRegistry} {life : Lifecycle} {tcaches : ℤ → ℕ} {counter : ℕ}
    {specific : ℕ → ℕ → ℕ} (h : r = ⟨life, tcaches, counter, specific⟩) :
    r.life = life ∧ r.tcacheIdCounter = counter ∧ r.tcaches = tcaches ∧ r.specific = specific := by
  subst h
  exact ⟨rfl, rfl, rfl, rfl⟩

/-- A new cache gets the next number. -/
theorem getTcache_miss (h : RegistryInv s) {thread : ℕ} (fresh : ℕ) (hmiss : s.Misses thread) :
    (s.step (.getTcache thread fresh)).created = s.created ++ [fresh] ∧
      (s.step (.getTcache thread fresh)).reg.life = s.reg.life ∧
      (s.step (.getTcache thread fresh)).reg.tcacheIdCounter =
        (s.earlier + s.created.length + 1) % 2 ^ 32 ∧
      (s.step (.getTcache thread fresh)).reg.tcaches =
        if toInt (s.earlier + 1 + s.created.length) < MAX_THREADS then
          Function.update s.reg.tcaches (toInt (s.earlier + 1 + s.created.length)) fresh
        else s.reg.tcaches := by
  have hnumber : toInt (atomic32IncFetch 32 s.reg.tcacheIdCounter) =
      toInt (s.earlier + 1 + s.created.length) := by
    rw [h.counter, toInt_next, Nat.add_right_comm]
  have hcounter : atomic32Inc 32 s.reg.tcacheIdCounter =
      (s.earlier + s.created.length + 1) % 2 ^ 32 := by
    rw [h.counter]
    unfold atomic32Inc
    omega
  have hreg : (s.step (.getTcache thread fresh)).reg =
      (s.reg.allocatorGetTcache thread (some fresh)).1 := rfl
  rw [allocatorGetTcache_miss hmiss fresh, hnumber, hcounter] at hreg
  obtain ⟨hlife, hcount, htcaches, -⟩ := fields_of_eq hreg
  exact ⟨if_pos hmiss, hlife, hcount, htcaches⟩

theorem misses_getTcache {thread fresh other : ℕ} (hne : other ≠ thread) (hother : s.Misses other) :
    (s.step (.getTcache thread fresh)).Misses other := by
  by_cases hmiss : s.Misses thread
  swap
  · rw [getTcache_hit hmiss]
    exact hother
  have hreg : (s.step (.getTcache thread fresh)).reg =
      (s.reg.allocatorGetTcache thread (some fresh)).1 := rfl
  rw [allocatorGetTcache_miss hmiss fresh] at hreg
  obtain ⟨hlife, -, -, hspecific⟩ := fields_of_eq hreg
  unfold RegistrySys.Misses
  rw [hspecific, hlife, Function.update_self, Function.update_of_ne hne]
  exact hother

theorem getTcache (h : RegistryInv s) {thread fresh : ℕ}
    (hlegal : (RegistryOp.getTcache thread fresh).Legal s) :
    RegistryInv (s.step (.getTcache thread fresh)) := by
  by_cases hmiss : s.Misses thread
  swap
  · rw [getTcache_hit hmiss]
    exact h
  obtain ⟨hup, hne, hnew⟩ := hlegal
  have hmade := h.getTcache_miss fresh hmiss
  have hearlier : (s.step (.getTcache thread fresh)).earlier = s.earlier := rfl
  generalize s.step (.getTcache thread fresh) = s' at hmade hearlier
  obtain ⟨hcreated, hlife, hcounter, htcaches⟩ := hmade
  have hlen : s'.created.length = s.created.length + 1 := by
    rw [hcreated, List.length_append]
    rfl
  have hlast : s'.created[s.created.length]? = some fresh := by
    rw [hcreated]
    exact List.getElem?_concat_length
  have hold : ∀ j t, s.created[j]? = some t → s'.created[j]? = some t := fun j t hj => by
    rw [hcreated, List.getElem?_append_left (List.getElem?_eq_some_iff.mp hj).1]
    exact hj
  refine ⟨?_, ?_, ?_, fun hdown => ?_, fun i hi => ?_, fun hfit j t hj => ?_⟩
  · rw [hcounter, hearlier, hlen]
    rfl
  · rw [hcreated]
    exact h.nodup.append (List.nodup_singleton fresh) (List.disjoint_singleton.mpr hnew)
  · rw [hcreated]
    exact fun hz => (List.mem_append.mp hz).elim h.nonNull
      fun hz => hne (List.mem_singleton.mp hz).symm
  · rw [hlife, hup] at hdown
    exact absurd hdown (by decide)
  · -- the new cache is in its place, or was not put into the table
    have hcase : s'.reg.tcaches i = fresh ∧ toInt (s.earlier + 1 + s.created.length) = i ∨
        s'.reg.tcaches i = s.reg.tcaches i := by
      rw [htcaches]
      split_ifs with hid
      · by_cases hi : i = toInt (s.earlier + 1 + s.created.length)
        · rw [hi, Function.update_self]
          exact .inl ⟨rfl, rfl⟩
        · exact .inr (Function.update_of_ne hi ..)
      · exact .inr rfl
    rcases hcase with ⟨he, hplace⟩ | he
    · rw [he, hearlier]
      exact .inr ⟨_, hlast, hplace⟩
    · rw [he, hearlier]
      exact (h.only i hi).imp_right fun ⟨j, hj, hplace⟩ => ⟨j, hold j _ hj, hplace⟩
  · rw [hearlier] at hfit ⊢
    rw [hlen] at hfit
    have hnew := hfit s.created.length (Nat.lt_succ_self _)
    rw [htcaches, if_pos hnew.2]
    rcases Nat.lt_or_ge j s.created.length with hlt | hge
    · rw [Function.update_of_ne (toInt_ne (fun i hi => hfit i (Nat.lt_succ_of_le hi)) hlt)]
      have hall := h.all fun i hi => hfit i (Nat.lt_succ_of_lt hi)
      rw [hcreated, List.getElem?_append_left hlt] at hj
      exact hall j t hj
    · have hj' := (List.getElem?_eq_some_iff.mp hj).1
      obtain rfl : j = s.created.length := by omega
      rw [Function.update_self]
      exact Option.some.inj (hlast.symm.trans hj)

theorem step (h : RegistryInv s) {op : RegistryOp} (hlegal : op.Legal s) :
    RegistryInv (s.step op) := by
  cases op with
  | init env => exact h.init env
  | shutdown => exact h.shutdown
  | getTcache thread fresh => exact h.getTcache hlegal

/-! ## a shutdown -/

/-- The caches that are destroyed are distinct, and were made since the allocator came up. -/
theorem destroyed (h : RegistryInv s) (hup : s.reg.life.initialized = true) :
    s.reg.allocatorShutdown.2.Nodup ∧ ∀ t, t ∈ s.reg.allocatorShutdown.2 ↔
      t ≠ 0 ∧ ∃ i : ℕ, InTable i ∧ s.reg.tcaches i = t := by
  have hlist : s.reg.allocatorShutdown.2 =
      ((List.range MAX_THREADS).filter fun i : ℕ => s.reg.tcaches i ≠ 0).map
        fun i : ℕ => s.reg.tcaches i := by
    unfold TcacheRegistry.allocatorShutdown
    rw [hup, Bool.not_true, if_neg Bool.false_ne_true]
  have hmem : ∀ i : ℕ, i ∈ (List.range MAX_THREADS).filter (fun i : ℕ => s.reg.tcaches i ≠ 0) ↔
      InTable i ∧ s.reg.tcaches i ≠ 0 := by
    intro i
    rw [List.mem_filter, List.mem_range, decide_eq_true_eq]
    unfold InTable
    exact and_congr_left fun _ => by omega
  rw [hlist]
  constructor
  · refine List.Nodup.map_on (fun i hi i' hi' he => ?_) (List.nodup_range.filter _)
    obtain ⟨hi, hne⟩ := (hmem i).mp hi
    obtain ⟨hi', hne'⟩ := (hmem i').mp hi'
    obtain ⟨j, hj, hplace⟩ := (h.only i hi).resolve_left hne
    obtain ⟨j', hj', hplace'⟩ := (h.only i' hi').resolve_left hne'
    rw [he, ← hj'] at hj
    have hlt : j < s.created.length := (List.getElem?_eq_some_iff.mp (hj.trans hj')).1
    obtain rfl := (List.getElem?_inj hlt h.nodup).mp hj
    exact Int.ofNat_inj.mp (hplace.symm.trans hplace')
  · intro t
    rw [List.mem_map]
    constructor
    · rintro ⟨i, hi, rfl⟩
      obtain ⟨hin, hne⟩ := (hmem i).mp hi
      exact ⟨hne, i, hin, rfl⟩
    · rintro ⟨hne, i, hin, rfl⟩
      exact ⟨i, (hmem i).mpr ⟨hin, hne⟩, rfl⟩

/-- Every cache is destroyed where the numbers fit; one whose number does not is in no place. -/
theorem destroys_iff (h : RegistryInv s) (op : RegistryOp) : op.DestroysEach s ↔ op.NumbersFit s := by
  cases op with
  | init env => exact Iff.rfl
  | getTcache thread fresh => exact Iff.rfl
  | shutdown =>
    show (∀ t ∈ s.created, s.reg.allocatorShutdown.2.count t = 1) ↔
      ∀ j < s.created.length, InTable (toInt (s.earlier + 1 + j))
    cases hup : s.reg.life.initialized with
    | false =>
      rw [h.down hup]
      exact iff_of_true (fun t ht => absurd ht List.not_mem_nil)
        fun j hj => absurd hj (Nat.not_lt_zero j)
    | true =>
      obtain ⟨hnd, hmem⟩ := h.destroyed hup
      constructor
      · intro hcount j hj
        have hone := hcount _ (List.getElem_mem hj)
        have hin : s.created[j] ∈ s.reg.allocatorShutdown.2 :=
          List.count_pos_iff.mp (by rw [hone]; exact Nat.one_pos)
        obtain ⟨hne, i, hi, ht⟩ := (hmem _).mp hin
        obtain ⟨j', hj', hplace⟩ := (h.only i hi).resolve_left (by rw [ht]; exact hne)
        rw [ht, ← List.getElem?_eq_getElem hj] at hj'
        obtain rfl := (List.getElem?_inj hj h.nodup).mp hj'.symm
        rw [hplace]
        exact hi
      · intro hfit t ht
        obtain ⟨j, hj, rfl⟩ := List.getElem_of_mem ht
        have hplace := h.all hfit j _ (List.getElem?_eq_getElem hj)
        have hi := hfit j hj
        rw [toInt_eq hi] at hplace hi
        exact List.count_eq_one_of_mem hnd
          ((hmem _).mpr ⟨fun hz => h.nonNull (hz ▸ ht), _, hi, hplace⟩)

end RegistryInv

/-- **Every shutdown destroys the caches** made since the allocator came up, each once, exactly as
long as their numbers fit the table: the counter is one of the process. -/
theorem shutdown_destroys_iff {ops : List RegistryOp}
    (hops : Runs.Each RegistrySys.step RegistryOp.Legal RegistrySys.start ops) :
    Runs.Each RegistrySys.step RegistryOp.DestroysEach RegistrySys.start ops ↔
      Runs.Each RegistrySys.step RegistryOp.NumbersFit RegistrySys.start ops :=
  Runs.each_iff_each_of (fun _ _ h hlegal => RegistryInv.step h hlegal)
    (fun _ op h _ => RegistryInv.destroys_iff h op) RegistryInv.start hops

/-- Two threads in one cycle, and one of them again in the next. -/
theorem shutdown_destroys_two :
    Runs.Each RegistrySys.step RegistryOp.DestroysEach RegistrySys.start
      [.init ⟨64, some 1⟩, .getTcache 0 128, .getTcache 1 192, .getTcache 0 256, .shutdown,
        .init ⟨64, some 1⟩, .getTcache 0 128, .shutdown] := by
  refine (@shutdown_destroys_iff [.init ⟨64, some 1⟩, .getTcache 0 128, .getTcache 1 192,
    .getTcache 0 256, .shutdown, .init ⟨64, some 1⟩, .getTcache 0 128, .shutdown] ?_).mpr ?_
  · exact ⟨trivial, ⟨rfl, by decide, by decide⟩, ⟨rfl, by decide, by decide⟩,
      ⟨rfl, by decide, by decide⟩, trivial, trivial, ⟨rfl, by decide, by decide⟩, trivial, trivial⟩
  · exact ⟨trivial, trivial, trivial, trivial, toInt_fits (by decide), trivial, trivial,
      toInt_fits (by decide), trivial⟩

/-- The first call of each of `n` threads. -/
def firstCalls (n : ℕ) : List RegistryOp := (List.range n).map fun i => .getTcache i (i + 1)

/-- Each thread gets a cache of its own. -/
theorem firstCalls_run {s : RegistrySys} (h : RegistryInv s) (hup : s.reg.life.initialized = true)
    (hnone : s.created = []) (hmiss : ∀ thread, s.Misses thread) (n : ℕ) :
    Runs.Each RegistrySys.step RegistryOp.Legal s (firstCalls n) ∧
      RegistryInv (Runs.after RegistrySys.step s (firstCalls n)) ∧
      (Runs.after RegistrySys.step s (firstCalls n)).reg.life.initialized = true ∧
      (Runs.after RegistrySys.step s (firstCalls n)).created = (List.range n).map (· + 1) ∧
      (Runs.after RegistrySys.step s (firstCalls n)).earlier = s.earlier ∧
      ∀ thread, n ≤ thread → (Runs.after RegistrySys.step s (firstCalls n)).Misses thread := by
  induction n with
  | zero => exact ⟨trivial, h, hup, hnone, rfl, fun thread _ => hmiss thread⟩
  | succ n ih =>
    obtain ⟨hlegal, hinv, hup, hcreated, hearlier, hothers⟩ := ih
    have hsplit : firstCalls (n + 1) = firstCalls n ++ [.getTcache n (n + 1)] := by
      unfold firstCalls
      rw [List.range_succ, List.map_append]
      rfl
    have hop : (RegistryOp.getTcache n (n + 1)).Legal
        (Runs.after RegistrySys.step s (firstCalls n)) := by
      refine ⟨hup, Nat.succ_ne_zero n, fun hin => ?_⟩
      rw [hcreated] at hin
      obtain ⟨i, hi, he⟩ := List.mem_map.mp hin
      have := List.mem_range.mp hi
      omega
    rw [hsplit, Runs.each_concat, Runs.after_append]
    generalize Runs.after RegistrySys.step s (firstCalls n) = s' at *
    obtain ⟨hcreated', hlife, -, -⟩ := hinv.getTcache_miss (n + 1) (hothers n (Nat.le_refl n))
    refine ⟨⟨hlegal, hop⟩, hinv.step hop, (congrArg _ hlife).trans hup, ?_, hearlier,
      fun thread hthread => RegistryInv.misses_getTcache (by omega) (hothers thread (by omega))⟩
    rw [List.range_succ, List.map_append, ← hcreated]
    exact hcreated'

/-- The cache of the 1024th thread is not destroyed. -/
theorem last_thread_left : ¬ ∀ ops : List RegistryOp,
    Runs.Each RegistrySys.step RegistryOp.Legal RegistrySys.start ops →
      Runs.Each RegistrySys.step RegistryOp.DestroysEach RegistrySys.start ops := by
  intro h
  obtain ⟨n, hn⟩ : ∃ n, n = MAX_THREADS := ⟨_, rfl⟩
  have hinit := RegistryInv.start.init ⟨64, some 1⟩
  have hzero : (RegistrySys.start.step (.init ⟨64, some 1⟩)).earlier = 0 := rfl
  obtain ⟨hlegal, hinv, -, hcreated, hearlier, -⟩ := firstCalls_run hinit rfl rfl (fun _ => rfl) n
  have hshut : RegistryOp.shutdown.Legal (Runs.after RegistrySys.step
      (RegistrySys.start.step (.init ⟨64, some 1⟩)) (firstCalls n)) := trivial
  have hdestroys := h (.init ⟨64, some 1⟩ :: (firstCalls n ++ [.shutdown]))
    ⟨trivial, Runs.each_concat.mpr ⟨hlegal, hshut⟩⟩
  have hfit := (hinv.destroys_iff .shutdown).mp (Runs.each_concat.mp hdestroys.2).2
  have hmax : MAX_THREADS = 1024 := rfl
  have hlast := toInt_inTable.mp (hfit (n - 1) (by
    rw [hcreated, List.length_map, List.length_range]
    omega))
  rw [hearlier, hzero] at hlast
  omega

end Nomalloc
