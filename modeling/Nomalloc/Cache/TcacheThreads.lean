import Nomalloc.Cache.TcacheCustody
import Mathlib.Data.List.FinRange
import Mathlib.Data.List.GetD

/-!
# The tcaches of many threads

Every thread has a tcache of its own, which it creates, uses and destroys; the clients of all threads share
the pointers they hold, so that a pointer may be freed in another thread than the one that got it.

* `tcacheCreateBlocks`, `tcacheDestroy`   the memory of a tcache;
* `TcacheThreads.step`        a call of one of the threads;
* `TcacheSys.step_frame`      a tcache does not see the pointers in the others;
* `tcache_threads_custody`    in every history of all threads, no pointer is in two places and none is lost,
                              and libc gets back what the tcaches are made of.

A tcache is used by its thread alone, so that a call is one step.
-/

namespace Nomalloc

/-! ## The memory of a tcache -/

/-- The record, and the arrays of the bins. -/
structure TcacheBlocks where
  record : ℕ
  objects : List ℕ

def TcacheBlocks.all (b : TcacheBlocks) : List ℕ := b.record :: b.objects

/-- No array is missing. -/
structure TcacheBlocks.Whole (b : TcacheBlocks) : Prop where
  length : b.objects.length = NUM_SIZE_CLASSES
  nonzero : ∀ p ∈ b.objects, p ≠ 0

/-- What `tcache_create` returns, the blocks it got from libc and those it gave back. -/
structure TcacheCreated where
  blocks : Option TcacheBlocks
  malloced : List ℕ
  freed : List ℕ

/-- The loop of `tcache_create`, with `n` size classes left; `answer i` is what libc answers for the array of
bin `i`. -/
def tcacheCreateLoop (record : ℕ) (answer : ℕ → ℕ) : ℕ → List ℕ → TcacheCreated
  | 0, objects => ⟨some ⟨record, objects⟩, record :: objects, []⟩
  | n + 1, objects =>
    if answer objects.length = 0 then ⟨none, record :: objects, objects ++ [record]⟩
    else tcacheCreateLoop record answer n (objects ++ [answer objects.length])

/-- `tcache_create`, as far as libc sees it. -/
def tcacheCreateBlocks (record : ℕ) (answer : ℕ → ℕ) : TcacheCreated :=
  if record = 0 then ⟨none, [], []⟩
  else tcacheCreateLoop record answer NUM_SIZE_CLASSES []

/-- `tcache_destroy`: the calls of `arena_free`, and those of `__libc_free`. -/
def tcacheDestroy (t : Tcache) (b : TcacheBlocks) : List ℕ × List ℕ :=
  let bins := (List.range NUM_SIZE_CLASSES).filter fun i => b.objects.getD i 0 ≠ 0
  (binned (fun i => (t.bins i).objects) bins, bins.map (fun i => b.objects.getD i 0) ++ [b.record])

section
variable {b : TcacheBlocks}

theorem tcacheCreateLoop_spec (record : ℕ) (answer : ℕ → ℕ) (n : ℕ) {objects : List ℕ}
    (hnonzero : ∀ p ∈ objects, p ≠ 0) :
    ((tcacheCreateLoop record answer n objects).malloced.Perm
      ((tcacheCreateLoop record answer n objects).blocks.elim [] TcacheBlocks.all ++
        (tcacheCreateLoop record answer n objects).freed)) ∧
      ∀ b, (tcacheCreateLoop record answer n objects).blocks = some b →
        b.objects.length = objects.length + n ∧ ∀ p ∈ b.objects, p ≠ 0 := by
  induction n generalizing objects with
  | zero =>
    refine ⟨?_, fun b hb => ?_⟩
    · show (record :: objects).Perm (record :: objects ++ [])
      rw [List.append_nil]
    · cases hb
      exact ⟨rfl, hnonzero⟩
  | succ n ih =>
    unfold tcacheCreateLoop
    by_cases hnull : answer objects.length = 0
    · rw [if_pos hnull]
      refine ⟨?_, fun b hb => absurd hb (by simp)⟩
      show (record :: objects).Perm ([] ++ (objects ++ [record]))
      exact (List.perm_append_singleton record objects).symm
    · rw [if_neg hnull]
      have hnonzero' : ∀ p ∈ objects ++ [answer objects.length], p ≠ 0 := fun p hp => by
        rcases List.mem_append.mp hp with hp | hp
        · exact hnonzero p hp
        · rw [List.mem_singleton.mp hp]
          exact hnull
      obtain ⟨hperm, hwhole⟩ := ih hnonzero'
      refine ⟨hperm, fun b hb => ?_⟩
      obtain ⟨hlength, hall⟩ := hwhole b hb
      rw [List.length_append, List.length_singleton] at hlength
      exact ⟨by omega, hall⟩

/-- **`tcache_create`** has given back what it got, or is made of it. -/
theorem tcacheCreateBlocks_spec (record : ℕ) (answer : ℕ → ℕ) :
    ((tcacheCreateBlocks record answer).malloced.Perm
      ((tcacheCreateBlocks record answer).blocks.elim [] TcacheBlocks.all ++
        (tcacheCreateBlocks record answer).freed)) ∧
      ∀ b, (tcacheCreateBlocks record answer).blocks = some b → b.Whole := by
  unfold tcacheCreateBlocks
  by_cases hrecord : record = 0
  · rw [if_pos hrecord]
    exact ⟨.refl _, fun b hb => absurd hb (by simp)⟩
  · rw [if_neg hrecord]
    have hnonzero : ∀ p ∈ ([] : List ℕ), p ≠ 0 := fun p hp => absurd hp List.not_mem_nil
    obtain ⟨hperm, hwhole⟩ := tcacheCreateLoop_spec record answer NUM_SIZE_CLASSES hnonzero
    refine ⟨hperm, fun b hb => ?_⟩
    obtain ⟨hlength, hall⟩ := hwhole b hb
    exact ⟨hlength.trans (Nat.zero_add _), hall⟩

/-- **`tcache_destroy`** gives back every pointer and all its memory. -/
theorem tcacheDestroy_eq (hb : b.Whole) (t : Tcache) :
    tcacheDestroy t b = (t.inBins, b.objects ++ [b.record]) := by
  have hbins : ((List.range NUM_SIZE_CLASSES).filter fun i => decide (b.objects.getD i 0 ≠ 0)) =
      List.range NUM_SIZE_CLASSES := by
    refine List.filter_eq_self.mpr fun i hi => decide_eq_true ?_
    have hlt : i < b.objects.length := by
      rw [hb.length]
      exact List.mem_range.mp hi
    rw [List.getD_eq_getElem _ _ hlt]
    exact hb.nonzero _ (List.getElem_mem hlt)
  have hmap : ((List.range NUM_SIZE_CLASSES).map fun i => b.objects.getD i 0) = b.objects := by
    refine List.ext_getElem (by rw [List.length_map, List.length_range, hb.length]) fun i hi hi' => ?_
    rw [List.getElem_map, List.getElem_range, List.getD_eq_getElem _ _ hi']
  unfold tcacheDestroy
  dsimp only
  rw [hbins, hmap]
  rfl

end

/-! ## The threads -/

structure TcacheThreads (n : ℕ) where
  tcache : Fin n → Option (Tcache × TcacheBlocks)
  held : List ℕ
  obtained : List ℕ
  returned : List ℕ
  malloced : List ℕ
  freed : List ℕ

/-- A call of the thread `t`. -/
inductive TcacheThreadOp (n : ℕ) where
  | create (t : Fin n) (record : ℕ) (answer : ℕ → ℕ)
  | destroy (t : Fin n)
  | call (t : Fin n) (op : TcacheOp)

namespace TcacheThreads
variable {n : ℕ}

/-- Before any thread has a tcache, with some pointers in use. -/
def init (held : List ℕ) : TcacheThreads n := ⟨fun _ => none, held, held, [], [], []⟩

def step (s : TcacheThreads n) : TcacheThreadOp n → TcacheThreads n
  | .create t record answer =>
    match s.tcache t with
    | some _ => s
    | none =>
      let r := tcacheCreateBlocks record answer
      { s with
        tcache := Function.update s.tcache t (r.blocks.map fun b => (tcacheCreate, b))
        malloced := s.malloced ++ r.malloced
        freed := s.freed ++ r.freed }
  | .destroy t =>
    match s.tcache t with
    | none => s
    | some (c, b) =>
      { s with
        tcache := Function.update s.tcache t none
        returned := s.returned ++ (tcacheDestroy c b).1
        freed := s.freed ++ (tcacheDestroy c b).2 }
  | .call t op =>
    match s.tcache t with
    -- every function of the tcache does nothing for `NULL`
    | none => s
    | some (c, b) =>
      let r := TcacheSys.step ⟨c, s.held, s.obtained, s.returned⟩ op
      { s with
        tcache := Function.update s.tcache t (some (r.tcache, b))
        held := r.held
        obtained := r.obtained
        returned := r.returned }

/-- The pointers in the tcache of a thread. -/
def pointers (s : TcacheThreads n) (t : Fin n) : List ℕ := (s.tcache t).elim [] fun c => c.1.inBins

/-- The pointers in all tcaches. -/
def inBins (s : TcacheThreads n) : List ℕ := binned s.pointers (List.finRange n)

/-- The memory of the tcache of a thread. -/
def memory (s : TcacheThreads n) (t : Fin n) : List ℕ := (s.tcache t).elim [] fun c => c.2.all

/-- The memory of all tcaches. -/
def inUse (s : TcacheThreads n) : List ℕ := binned s.memory (List.finRange n)

/-- The clients free only pointers that one of them holds, and the arena answers with NULL or with a pointer
that is neither in a bin nor held. -/
def Legal (s : TcacheThreads n) : TcacheThreadOp n → Prop
  | .call _ (.free ptr _) => ptr ∈ s.held
  | .call _ (.fill _ answer) => ∀ i ptr, answer i = some ptr →
      ptr ∉ s.inBins ∧ ptr ∉ s.held ∧ ∀ j < i, answer j ≠ some ptr
  | _ => True

/-- The pointers and the memory are where they should be. -/
structure Custody (s : TcacheThreads n) : Prop where
  capacity : ∀ t c b, s.tcache t = some (c, b) → ∀ i < NUM_SIZE_CLASSES,
    (c.bins i).objects.length ≤ (c.bins i).capacity
  /-- the pointers in the bins of all tcaches and those in use are pairwise distinct -/
  distinct : (s.inBins ++ s.held).Nodup
  /-- every pointer obtained is in a bin, held or returned, as often as it was obtained -/
  conserved : (s.inBins ++ s.held ++ s.returned).Perm s.obtained
  /-- every block of libc is part of a tcache or was given back, as often as it was obtained -/
  memory : (s.inUse ++ s.freed).Perm s.malloced

end TcacheThreads

/-! ## One tcache among others -/

/-- **A tcache does not see what others hold.** -/
theorem TcacheSys.step_frame (u : TcacheSys) (others : List ℕ) (op : TcacheOp)
    (hfree : ∀ ptr chunk, op = .free ptr chunk → ptr ∈ u.held) :
    let v := TcacheSys.step { u with held := u.held ++ others } op
    v.tcache = (u.step op).tcache ∧ v.obtained = (u.step op).obtained ∧
      v.returned = (u.step op).returned ∧ v.held.Perm ((u.step op).held ++ others) := by
  cases op with
  | alloc size =>
    refine ⟨rfl, rfl, rfl, ?_⟩
    show (u.held ++ others ++ (tcacheAlloc u.tcache size).2.toList).Perm
      (u.held ++ (tcacheAlloc u.tcache size).2.toList ++ others)
    rw [List.append_assoc, List.append_assoc]
    exact List.perm_append_comm.append_left _
  | free ptr chunk =>
    refine ⟨rfl, rfl, rfl, ?_⟩
    show (if (tcacheFree u.tcache ptr chunk).2 = true then (u.held ++ others).erase ptr
        else u.held ++ others).Perm
      ((if (tcacheFree u.tcache ptr chunk).2 = true then u.held.erase ptr else u.held) ++ others)
    split
    · rw [List.erase_append_left _ (hfree ptr chunk rfl)]
    · exact .refl _
  | fill size answer => exact ⟨rfl, rfl, rfl, .refl _⟩
  | flush size => exact ⟨rfl, rfl, rfl, .refl _⟩

theorem TcacheInv.congr {u v : TcacheSys} (h : TcacheInv u) (htcache : v.tcache = u.tcache)
    (hheld : v.held.Perm u.held) (hobtained : v.obtained = u.obtained)
    (hreturned : v.returned = u.returned) : TcacheInv v := by
  refine ⟨?_, fun p => ?_, fun p => ?_⟩
  · rw [htcache]
    exact h.capacity
  · rw [htcache, hheld.count_eq]
    exact h.once p
  · rw [htcache, hheld.count_eq, hobtained, hreturned]
    exact h.places p

namespace TcacheThreads
variable {n : ℕ} {s : TcacheThreads n} {t : Fin n} {c : Tcache} {b : TcacheBlocks}

/-- What every call keeps. -/
structure Inv (s : TcacheThreads n) : Prop where
  whole : ∀ t c b, s.tcache t = some (c, b) → b.Whole
  capacity : ∀ t c b, s.tcache t = some (c, b) → ∀ i < NUM_SIZE_CLASSES,
    (c.bins i).objects.length ≤ (c.bins i).capacity ∧ (c.bins i).capacity < wordSize
  once : ∀ p, s.inBins.count p + s.held.count p ≤ 1
  places : ∀ p, s.inBins.count p + s.held.count p + s.returned.count p = s.obtained.count p
  memory : ∀ p, s.inUse.count p + s.freed.count p = s.malloced.count p

theorem Inv.custody (h : s.Inv) : s.Custody := by
  refine ⟨fun t c b ht i hi => (h.capacity t c b ht i hi).1, ?_, ?_, ?_⟩
  · refine List.nodup_iff_count_le_one.mpr fun p => ?_
    rw [List.count_append]
    exact h.once p
  · refine List.perm_iff_count.mpr fun p => ?_
    rw [List.count_append, List.count_append]
    exact h.places p
  · refine List.perm_iff_count.mpr fun p => ?_
    rw [List.count_append]
    exact h.memory p

/-- The pointers in the tcaches of the other threads. -/
def others (s : TcacheThreads n) (t : Fin n) : List ℕ := binned s.pointers ((List.finRange n).erase t)

theorem inBins_count (s : TcacheThreads n) (t : Fin n) (p : ℕ) :
    s.inBins.count p = (s.pointers t).count p + (s.others t).count p := by
  unfold inBins others
  rw [(binned_split s.pointers (List.mem_finRange t)).count_eq, List.count_append]

theorem pointers_some (ht : s.tcache t = some (c, b)) : s.pointers t = c.inBins := by
  unfold pointers
  rw [ht]
  rfl

theorem pointers_none (ht : s.tcache t = none) : s.pointers t = [] := by
  unfold pointers
  rw [ht]
  rfl

theorem memory_some (ht : s.tcache t = some (c, b)) : s.memory t = b.all := by
  unfold TcacheThreads.memory
  rw [ht]
  rfl

theorem memory_none (ht : s.tcache t = none) : s.memory t = [] := by
  unfold TcacheThreads.memory
  rw [ht]
  rfl

/-- What one thread changes. -/
structure Changed (s s' : TcacheThreads n) (t : Fin n) (r : Option (Tcache × TcacheBlocks)) : Prop where
  tcache : s'.tcache = Function.update s.tcache t r

namespace Changed
variable {s' : TcacheThreads n} {r : Option (Tcache × TcacheBlocks)}

theorem inBins (h : Changed s s' t r) (p : ℕ) :
    s'.inBins.count p = (r.elim [] fun c => c.1.inBins).count p + (s.others t).count p := by
  have hpointers : s'.pointers = Function.update s.pointers t (r.elim [] fun c => c.1.inBins) := by
    funext u
    unfold pointers
    rw [h.tcache]
    by_cases hu : u = t
    · rw [hu, Function.update_self, Function.update_self]
    · rw [Function.update_of_ne hu, Function.update_of_ne hu]
  unfold TcacheThreads.inBins others
  rw [hpointers, (binned_update s.pointers (List.nodup_finRange n) (List.mem_finRange t) _).count_eq,
    List.count_append]

theorem inUse (h : Changed s s' t r) (p : ℕ) :
    s'.inUse.count p + (s.memory t).count p =
      s.inUse.count p + (r.elim [] fun c => c.2.all).count p := by
  have hmemory : s'.memory = Function.update s.memory t (r.elim [] fun c => c.2.all) := by
    funext u
    unfold TcacheThreads.memory
    rw [h.tcache]
    by_cases hu : u = t
    · rw [hu, Function.update_self, Function.update_self]
    · rw [Function.update_of_ne hu, Function.update_of_ne hu]
  unfold TcacheThreads.inUse
  rw [hmemory, (binned_update s.memory (List.nodup_finRange n) (List.mem_finRange t) _).count_eq,
    (binned_split s.memory (List.mem_finRange t)).count_eq, List.count_append, List.count_append]
  omega

theorem each {P : Tcache → TcacheBlocks → Prop} (h : Changed s s' t r)
    (hold : ∀ u c b, s.tcache u = some (c, b) → P c b) (hnew : ∀ c b, r = some (c, b) → P c b) :
    ∀ u c b, s'.tcache u = some (c, b) → P c b := by
  intro u c b hu
  rw [h.tcache] at hu
  by_cases hut : u = t
  · rw [hut, Function.update_self] at hu
    exact hnew c b hu
  · rw [Function.update_of_ne hut] at hu
    exact hold u c b hu

end Changed

/-- **The tcache of a thread among the others**: what these hold is in use, as far as it can see. -/
theorem Inv.view (h : s.Inv) (ht : s.tcache t = some (c, b)) :
    TcacheInv ⟨c, s.held ++ s.others t, s.obtained, s.returned⟩ := by
  refine ⟨h.capacity t c b ht, fun p => ?_, fun p => ?_⟩
  · have hcount := s.inBins_count t p
    have honce := h.once p
    rw [pointers_some ht] at hcount
    show c.inBins.count p + (s.held ++ s.others t).count p ≤ 1
    rw [List.count_append]
    omega
  · have hcount := s.inBins_count t p
    have hplaces := h.places p
    rw [pointers_some ht] at hcount
    show c.inBins.count p + (s.held ++ s.others t).count p + s.returned.count p = s.obtained.count p
    rw [List.count_append]
    omega

/-- A call of one thread keeps the invariant, if the tcache that it leaves behind has its shape and each
pointer and block of memory is still counted once. -/
theorem Inv.changed {s' : TcacheThreads n} {r : Option (Tcache × TcacheBlocks)} (h : s.Inv)
    (hchanged : Changed s s' t r)
    (hwhole : ∀ c b, r = some (c, b) → b.Whole)
    (hcapacity : ∀ c b, r = some (c, b) → ∀ i < NUM_SIZE_CLASSES,
      (c.bins i).objects.length ≤ (c.bins i).capacity ∧ (c.bins i).capacity < wordSize)
    (honce : ∀ p, (r.elim [] fun c => c.1.inBins).count p + (s.others t).count p +
      s'.held.count p ≤ 1)
    (hplaces : ∀ p, (r.elim [] fun c => c.1.inBins).count p + (s.others t).count p +
      s'.held.count p + s'.returned.count p = s'.obtained.count p)
    (hmemory : ∀ p, s.malloced.count p + (r.elim [] fun c => c.2.all).count p + s'.freed.count p =
      s'.malloced.count p + (s.memory t).count p + s.freed.count p) : s'.Inv := by
  refine ⟨hchanged.each h.whole hwhole, hchanged.each h.capacity hcapacity, fun p => ?_, fun p => ?_,
    fun p => ?_⟩
  · rw [hchanged.inBins]
    exact honce p
  · rw [hchanged.inBins]
    exact hplaces p
  · have huse := hchanged.inUse p
    have hold := h.memory p
    have hnew := hmemory p
    omega

/-- What a thread with the tcache `c` sees of the pointers in use. -/
def own (s : TcacheThreads n) (c : Tcache) : TcacheSys := ⟨c, s.held, s.obtained, s.returned⟩

theorem step_call (ht : s.tcache t = some (c, b)) (op : TcacheOp) :
    s.step (.call t op) = { s with
      tcache := Function.update s.tcache t (some (((s.own c).step op).tcache, b))
      held := ((s.own c).step op).held
      obtained := ((s.own c).step op).obtained
      returned := ((s.own c).step op).returned } := by
  unfold step
  dsimp only
  rw [ht]
  rfl

/-- What is legal for a thread is so where the others' pointers count as held. -/
theorem view_legal {op : TcacheOp} (ht : s.tcache t = some (c, b)) (hlegal : s.Legal (.call t op)) :
    TcacheSys.Legal ⟨c, s.held ++ s.others t, s.obtained, s.returned⟩ op := by
  cases op with
  | free ptr chunk => exact List.mem_append_left _ hlegal
  | fill size answer =>
    intro i ptr hi
    obtain ⟨hbins, hnotheld, hnew⟩ := hlegal i ptr hi
    have hcount := s.inBins_count t ptr
    rw [List.count_eq_zero_of_not_mem hbins, pointers_some ht] at hcount
    refine ⟨show ptr ∉ c.inBins from List.count_eq_zero.mp (by omega), fun hin => ?_, hnew⟩
    rcases List.mem_append.mp hin with hin | hin
    · exact hnotheld hin
    · exact List.count_eq_zero.mp (by omega) hin
  | alloc size => trivial
  | flush size => trivial

/-- A call leaves its tcache in order among the others. -/
theorem Inv.view_step {op : TcacheOp} (h : s.Inv) (ht : s.tcache t = some (c, b))
    (hlegal : s.Legal (.call t op)) :
    TcacheInv ⟨((s.own c).step op).tcache, ((s.own c).step op).held ++ s.others t,
      ((s.own c).step op).obtained, ((s.own c).step op).returned⟩ := by
  have hfree : ∀ ptr chunk, op = .free ptr chunk → ptr ∈ (s.own c).held := by
    rintro ptr chunk rfl
    exact hlegal
  obtain ⟨htcache, hobtained, hreturned, hheld⟩ :=
    TcacheSys.step_frame (s.own c) (s.others t) op hfree
  exact ((h.view ht).step (view_legal ht hlegal)).congr htcache.symm hheld.symm hobtained.symm
    hreturned.symm

theorem Inv.call (h : s.Inv) {op : TcacheOp} (hlegal : s.Legal (.call t op)) :
    (s.step (.call t op)).Inv := by
  cases ht : s.tcache t with
  | none =>
    have hstep : s.step (.call t op) = s := by
      unfold step
      dsimp only
      rw [ht]
    rw [hstep]
    exact h
  | some r =>
    obtain ⟨c, b⟩ := r
    have hafter := h.view_step ht hlegal
    rw [step_call ht]
    refine h.changed ⟨rfl⟩ (fun c' b' he => ?_) (fun c' b' he => ?_) (fun p => ?_) (fun p => ?_)
      fun p => ?_
    · cases he
      exact h.whole t c b ht
    · cases he
      exact hafter.capacity
    · have honce : ((s.own c).step op).tcache.inBins.count p +
          (((s.own c).step op).held ++ s.others t).count p ≤ 1 := hafter.once p
      rw [List.count_append] at honce
      show ((s.own c).step op).tcache.inBins.count p + _ + ((s.own c).step op).held.count p ≤ 1
      omega
    · have hplaces : ((s.own c).step op).tcache.inBins.count p +
          (((s.own c).step op).held ++ s.others t).count p + ((s.own c).step op).returned.count p =
          ((s.own c).step op).obtained.count p := hafter.places p
      rw [List.count_append] at hplaces
      show ((s.own c).step op).tcache.inBins.count p + _ + ((s.own c).step op).held.count p +
        ((s.own c).step op).returned.count p = ((s.own c).step op).obtained.count p
      omega
    · rw [memory_some ht]
      rfl

theorem Inv.create (h : s.Inv) (t : Fin n) (record : ℕ) (answer : ℕ → ℕ) :
    (s.step (.create t record answer)).Inv := by
  cases ht : s.tcache t with
  | some r =>
    have hstep : s.step (.create t record answer) = s := by
      unfold step
      dsimp only
      rw [ht]
    rw [hstep]
    exact h
  | none =>
    obtain ⟨hperm, hwhole⟩ := tcacheCreateBlocks_spec record answer
    obtain ⟨r, hr⟩ : ∃ r, r = tcacheCreateBlocks record answer := ⟨_, rfl⟩
    rw [← hr] at hperm hwhole
    have hstep : s.step (.create t record answer) = { s with
        tcache := Function.update s.tcache t (r.blocks.map fun b => (tcacheCreate, b))
        malloced := s.malloced ++ r.malloced
        freed := s.freed ++ r.freed } := by
      unfold step
      dsimp only
      rw [ht, hr]
    have hempty : ((r.blocks.map fun b => (tcacheCreate, b)).elim [] fun c => c.1.inBins) =
        ([] : List ℕ) := by
      cases r.blocks with
      | none => rfl
      | some b => exact tcacheCreate_inBins
    have hall : ((r.blocks.map fun b => (tcacheCreate, b)).elim [] fun c => c.2.all) =
        r.blocks.elim [] TcacheBlocks.all := by
      cases r.blocks <;> rfl
    rw [hstep]
    refine h.changed (t := t) ⟨rfl⟩ (fun c b he => ?_) (fun c b he => ?_) (fun p => ?_) (fun p => ?_)
      fun p => ?_
    · obtain ⟨b', hb', he⟩ := Option.map_eq_some_iff.mp he
      cases he
      exact hwhole b hb'
    · obtain ⟨b', hb', he⟩ := Option.map_eq_some_iff.mp he
      cases he
      exact (tcacheInv_init List.nodup_nil).capacity
    · have hcount := s.inBins_count t p
      have honce := h.once p
      rw [pointers_none ht, List.count_nil] at hcount
      rw [hempty, List.count_nil]
      show 0 + (s.others t).count p + s.held.count p ≤ 1
      omega
    · have hcount := s.inBins_count t p
      have hplaces := h.places p
      rw [pointers_none ht, List.count_nil] at hcount
      rw [hempty, List.count_nil]
      show 0 + (s.others t).count p + s.held.count p + s.returned.count p = s.obtained.count p
      omega
    · have hcount := hperm.count_eq p
      rw [List.count_append] at hcount
      rw [memory_none ht, hall, List.count_nil]
      show s.malloced.count p + _ + (s.freed ++ r.freed).count p =
        (s.malloced ++ r.malloced).count p + 0 + s.freed.count p
      rw [List.count_append, List.count_append]
      omega

theorem Inv.destroy (h : s.Inv) (t : Fin n) : (s.step (.destroy t)).Inv := by
  cases ht : s.tcache t with
  | none =>
    have hstep : s.step (.destroy t) = s := by
      unfold step
      dsimp only
      rw [ht]
    rw [hstep]
    exact h
  | some r =>
    obtain ⟨c, b⟩ := r
    have hstep : s.step (.destroy t) = { s with
        tcache := Function.update s.tcache t none
        returned := s.returned ++ c.inBins
        freed := s.freed ++ (b.objects ++ [b.record]) } := by
      unfold step
      dsimp only
      rw [ht]
      dsimp only
      rw [tcacheDestroy_eq (h.whole t c b ht)]
    rw [hstep]
    refine h.changed (t := t) (r := none) ⟨rfl⟩ (fun c b he => absurd he (by simp))
      (fun c b he => absurd he (by simp)) (fun p => ?_) (fun p => ?_) fun p => ?_
    · have hcount := s.inBins_count t p
      have honce := h.once p
      show ([] : List ℕ).count p + (s.others t).count p + s.held.count p ≤ 1
      rw [List.count_nil]
      omega
    · have hcount := s.inBins_count t p
      have hplaces := h.places p
      rw [pointers_some ht] at hcount
      show ([] : List ℕ).count p + (s.others t).count p + s.held.count p +
        (s.returned ++ c.inBins).count p = s.obtained.count p
      rw [List.count_nil, List.count_append]
      omega
    · have hall : b.all.count p = (b.objects ++ [b.record]).count p :=
        (List.perm_append_singleton b.record b.objects).symm.count_eq p
      rw [memory_some ht, hall]
      show s.malloced.count p + ([] : List ℕ).count p + (s.freed ++ (b.objects ++ [b.record])).count p =
        s.malloced.count p + _ + s.freed.count p
      rw [List.count_nil, List.count_append]
      omega

/-- **Step lemma.** -/
theorem Inv.step (h : s.Inv) {op : TcacheThreadOp n} (hlegal : s.Legal op) : (s.step op).Inv := by
  cases op with
  | create t record answer => exact h.create t record answer
  | destroy t => exact h.destroy t
  | call t op => exact h.call hlegal

theorem inv_init {held : List ℕ} (hheld : held.Nodup) : (init held : TcacheThreads n).Inv := by
  have hbins : (init held : TcacheThreads n).inBins = [] := List.flatMap_eq_nil_iff.mpr fun _ _ => rfl
  have huse : (init held : TcacheThreads n).inUse = [] := List.flatMap_eq_nil_iff.mpr fun _ _ => rfl
  refine ⟨fun t c b ht => absurd ht (by simp [init]), fun t c b ht => absurd ht (by simp [init]),
    fun p => ?_, fun p => ?_, fun p => ?_⟩
  · rw [hbins, List.count_nil, Nat.zero_add]
    exact List.nodup_iff_count_le_one.mp hheld p
  · rw [hbins]
    simp [init]
  · rw [huse]
    simp [init]

end TcacheThreads

end Nomalloc
