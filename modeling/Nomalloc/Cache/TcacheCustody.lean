import Nomalloc.Cache.Tcache
import Nomalloc.Lib.Bins
import Nomalloc.Lib.Runs

/-!
# Where the pointers of a tcache are

A tcache and its client (`TcacheSys`): the pointers the client holds, those obtained from the arena
and those returned to it, in the order of the calls.  The client may hold pointers from elsewhere
when the tcache is created; they count as obtained.

* `setObjects_inBins`   one bin changes, the others do not;
* `CustodyInv.move`     a step keeps the invariant when it keeps the number of places of a pointer;
* `tcache_custody`      after any history every bin is within its capacity, and a pointer obtained
                        is in one bin, held by the client or returned, once.
-/

namespace Nomalloc

/-- The pointers in all the bins. -/
def Tcache.inBins (t : Tcache) : List ℕ :=
  binned (fun c => (t.bins c).objects) (List.range NUM_SIZE_CLASSES)

theorem tcacheCreate_inBins : tcacheCreate.inBins = [] :=
  List.flatMap_eq_nil_iff.mpr fun _ _ => rfl

structure TcacheSys where
  tcache : Tcache
  held : List ℕ
  obtained : List ℕ
  returned : List ℕ

/-- A call, with the chunk record that `tcache_free` reads, and the answers of `arena_malloc`. -/
inductive TcacheOp where
  | alloc (size : ℕ)
  | free (ptr : ℕ) (chunk : Chunk)
  | fill (size : ℕ) (answer : ℕ → Option ℕ)
  | flush (size : ℕ)

/-- A fresh tcache of a client that holds some pointers. -/
def TcacheSys.init (held : List ℕ) : TcacheSys := ⟨tcacheCreate, held, held, []⟩

/-- A call, and what the client holds after it. -/
def TcacheSys.step (s : TcacheSys) : TcacheOp → TcacheSys
  | .alloc size =>
    let r := tcacheAlloc s.tcache size
    { s with tcache := r.1, held := s.held ++ r.2.toList }
  | .free ptr chunk =>
    let r := tcacheFree s.tcache ptr chunk
    { s with tcache := r.1, held := if r.2 then s.held.erase ptr else s.held }
  | .fill size answer =>
    let r := tcacheFill s.tcache size answer
    { s with tcache := r.1, obtained := s.obtained ++ r.2 }
  | .flush size =>
    let r := tcacheFlush s.tcache size
    { s with tcache := r.1, returned := s.returned ++ r.2 }

/-- The client frees only pointers it holds, and the arena answers with NULL or with a pointer that
is neither in a bin nor held. -/
def TcacheSys.Legal (s : TcacheSys) : TcacheOp → Prop
  | .free ptr _ => ptr ∈ s.held
  | .fill _ answer => ∀ i ptr, answer i = some ptr →
      ptr ∉ s.tcache.inBins ∧ ptr ∉ s.held ∧ ∀ j < i, answer j ≠ some ptr
  | _ => True

/-- The pointers are where they should be. -/
structure TcacheSys.Custody (s : TcacheSys) : Prop where
  capacity : ∀ c < NUM_SIZE_CLASSES,
    (s.tcache.bins c).objects.length ≤ (s.tcache.bins c).capacity
  /-- the pointers in the bins and those the client holds are pairwise distinct -/
  distinct : (s.tcache.inBins ++ s.held).Nodup
  /-- every pointer obtained is in a bin, held or returned, as often as it was obtained -/
  conserved : (s.tcache.inBins ++ s.held ++ s.returned).Perm s.obtained
  /-- a `tcache_free` that returns false changes nothing -/
  refused : ∀ ptr chunk, (tcacheFree s.tcache ptr chunk).2 = false →
    (tcacheFree s.tcache ptr chunk).1 = s.tcache

/-! ## the functions -/

section
variable {t : Tcache} {c size : ℕ}

/-- The pointers of one bin change, those of the others do not. -/
theorem setObjects_inBins (t : Tcache) (hc : c < NUM_SIZE_CLASSES) (objects : List ℕ) :
    ∃ rest, t.inBins.Perm ((t.bins c).objects ++ rest) ∧
      (t.setObjects c objects).inBins.Perm (objects ++ rest) := by
  have hmem := List.mem_range.mpr hc
  refine ⟨binned (fun c => (t.bins c).objects) ((List.range NUM_SIZE_CLASSES).erase c),
    binned_split _ hmem, ?_⟩
  have hbins : (fun j => ((t.setObjects c objects).bins j).objects) =
      Function.update (fun j => (t.bins j).objects) c objects := by
    funext j
    show (Function.update t.bins c _ j).objects = _
    by_cases hj : j = c
    · rw [hj, Function.update_self, Function.update_self]
    · rw [Function.update_of_ne hj, Function.update_of_ne hj]
  unfold Tcache.inBins
  rw [hbins]
  exact binned_update _ List.nodup_range hmem objects

theorem setObjects_bin (t : Tcache) (c : ℕ) (objects : List ℕ) (j : ℕ) :
    ((t.setObjects c objects).bins j).capacity = (t.bins j).capacity ∧
      ((t.setObjects c objects).bins j).objects = if j = c then objects else (t.bins j).objects := by
  show (Function.update t.bins c _ j).capacity = _ ∧ (Function.update t.bins c _ j).objects = _
  by_cases hj : j = c
  · subst hj
    rw [Function.update_self, if_pos rfl]
    exact ⟨rfl, rfl⟩
  · rw [Function.update_of_ne hj, if_neg hj]
    exact ⟨rfl, rfl⟩

/-- What a function of `tcache.c` does to the bins: nothing, or the pointers of one bin change. -/
def BinChange (t t' : Tcache) (c : ℕ) (objects : List ℕ) : Prop :=
  c < NUM_SIZE_CLASSES ∧ t'.bins = (t.setObjects c objects).bins

theorem not_large (h : isLargeClassIdx (sizeToClass size) = false) :
    sizeToClass size < NUM_SIZE_CLASSES := Nat.not_le.mp (of_decide_eq_false h)

theorem not_large_le (h : isLargeClassIdx (sizeToClass size) = false) :
    size ≤ SIZE_CLASS_MEDIUM_MAX := by
  refine Nat.not_lt.mp fun hlt => ?_
  rw [isLargeClassIdx_iff.mpr hlt] at h
  exact absurd h (by decide)

/-- **`tcache_alloc`** takes the newest pointer of a bin, or returns NULL. -/
theorem tcacheAlloc_cases (t : Tcache) (size : ℕ) :
    ((tcacheAlloc t size).2 = none ∧ (tcacheAlloc t size).1.bins = t.bins) ∨
      ∃ objects ptr, size ≤ SIZE_CLASS_MEDIUM_MAX ∧
        (t.bins (sizeToClass size)).objects = objects ++ [ptr] ∧
        (tcacheAlloc t size).2 = some ptr ∧
        BinChange t (tcacheAlloc t size).1 (sizeToClass size) objects := by
  unfold tcacheAlloc
  by_cases h0 : !t.active ∨ size = 0
  · rw [if_pos h0]
    exact Or.inl ⟨rfl, rfl⟩
  rw [if_neg h0]
  dsimp only
  cases hl : isLargeClassIdx (sizeToClass size) with
  | true =>
    rw [if_pos rfl]
    exact Or.inl ⟨rfl, rfl⟩
  | false =>
    rw [if_neg Bool.false_ne_true]
    rcases List.eq_nil_or_concat' (t.bins (sizeToClass size)).objects with hnil | ⟨init, p, hp⟩
    · rw [hnil, List.getLast?_nil]
      exact Or.inl ⟨rfl, rfl⟩
    · rw [hp, List.getLast?_concat, List.dropLast_concat]
      exact Or.inr ⟨init, p, not_large_le hl, rfl, rfl, not_large hl, rfl⟩

theorem tcacheFreeClass_lt (chunk : Chunk) (ptr : ℕ) :
    tcacheFreeClass chunk ptr < NUM_SIZE_CLASSES := by
  unfold tcacheFreeClass
  dsimp only
  cases hf : (List.range NUM_SIZE_CLASSES).find? _ with
  | none => exact Nat.succ_pos _
  | some i => exact List.mem_range.mp (List.mem_of_find?_eq_some hf)

/-- **`tcache_free`** puts the pointer into a bin that has room, or changes nothing. -/
theorem tcacheFree_cases (t : Tcache) (ptr : ℕ) (chunk : Chunk) :
    tcacheFree t ptr chunk = (t, false) ∨
      (t.bins (tcacheFreeClass chunk ptr)).objects.length <
          (t.bins (tcacheFreeClass chunk ptr)).capacity ∧ (tcacheFree t ptr chunk).2 = true ∧
        BinChange t (tcacheFree t ptr chunk).1 (tcacheFreeClass chunk ptr)
          ((t.bins (tcacheFreeClass chunk ptr)).objects ++ [ptr]) := by
  unfold tcacheFree
  by_cases h0 : ptr = 0 ∨ !t.active
  · rw [if_pos h0]
    exact Or.inl rfl
  rw [if_neg h0]
  by_cases hl : chunk.isLarge
  · rw [if_pos hl]
    exact Or.inl rfl
  rw [if_neg hl]
  dsimp only
  split_ifs with hroom
  · exact Or.inr ⟨hroom, rfl, tcacheFreeClass_lt chunk ptr, rfl⟩
  · exact Or.inl rfl

/-- The loop of `tcache_fill` gets pointers that the arena answers with, up to the first NULL. -/
theorem tcacheFillLoop_spec (answer : ℕ → Option ℕ)
    (hnew : ∀ i ptr, answer i = some ptr → ∀ j < i, answer j ≠ some ptr) (i n : ℕ) :
    (tcacheFillLoop answer i n).length ≤ n ∧ (tcacheFillLoop answer i n).Nodup ∧
      ∀ ptr ∈ tcacheFillLoop answer i n, ∃ j, i ≤ j ∧ answer j = some ptr := by
  induction n generalizing i with
  | zero => exact ⟨Nat.le_refl 0, List.nodup_nil, fun ptr hp => absurd hp (List.not_mem_nil)⟩
  | succ n ih =>
    unfold tcacheFillLoop
    cases ha : answer i with
    | none => exact ⟨Nat.zero_le _, List.nodup_nil, fun ptr hp => absurd hp (List.not_mem_nil)⟩
    | some ptr =>
      obtain ⟨hlen, hnd, hfrom⟩ := ih (i + 1)
      refine ⟨Nat.succ_le_succ hlen, List.nodup_cons.mpr ⟨fun hin => ?_, hnd⟩, fun p hp => ?_⟩
      · obtain ⟨j, hj, hans⟩ := hfrom ptr hin
        exact hnew j ptr hans i (by omega) ha
      · rcases List.mem_cons.mp hp with rfl | hp
        · exact ⟨i, Nat.le_refl i, ha⟩
        · obtain ⟨j, hj, hans⟩ := hfrom p hp
          exact ⟨j, by omega, hans⟩

/-- **`tcache_fill`** adds what it got to a bin, within the capacity. -/
theorem tcacheFill_cases (t : Tcache) (size : ℕ) (answer : ℕ → Option ℕ) :
    ((tcacheFill t size answer).2 = [] ∧ (tcacheFill t size answer).1.bins = t.bins) ∨
      ∃ n, n ≤ subW (t.bins (sizeToClass size)).capacity
          (t.bins (sizeToClass size)).objects.length ∧
        (tcacheFill t size answer).2 = tcacheFillLoop answer 0 n ∧
        BinChange t (tcacheFill t size answer).1 (sizeToClass size)
          ((t.bins (sizeToClass size)).objects ++ tcacheFillLoop answer 0 n) := by
  unfold tcacheFill
  by_cases h0 : size = 0
  · rw [if_pos h0]
    exact Or.inl ⟨rfl, rfl⟩
  rw [if_neg h0]
  dsimp only
  cases hl : isLargeClassIdx (sizeToClass size) with
  | true =>
    rw [if_pos rfl]
    exact Or.inl ⟨rfl, rfl⟩
  | false =>
    rw [if_neg Bool.false_ne_true]
    exact Or.inr ⟨_, min_le_left _ _, rfl, not_large hl, rfl⟩

/-- The loop of `tcache_flush` splits the pointers into those that are left and those returned. -/
theorem tcacheFlushLoop_spec (n : ℕ) (objects : List ℕ) :
    ((tcacheFlushLoop n objects).1 ++ (tcacheFlushLoop n objects).2).Perm objects ∧
      (tcacheFlushLoop n objects).1 <+: objects := by
  induction n generalizing objects with
  | zero => exact ⟨by rw [tcacheFlushLoop, List.append_nil], List.prefix_refl _⟩
  | succ n ih =>
    unfold tcacheFlushLoop
    rcases List.eq_nil_or_concat' objects with rfl | ⟨init, p, rfl⟩
    · exact ih []
    · rw [List.getLast?_concat, List.dropLast_concat]
      obtain ⟨hperm, hprefix⟩ := ih init
      refine ⟨?_, ?_⟩
      · exact (List.perm_middle.trans (hperm.cons p)).trans (List.perm_append_singleton p init).symm
      · exact hprefix.trans (List.prefix_append init [p])

/-- **`tcache_flush`** returns some pointers of a bin. -/
theorem tcacheFlush_cases (t : Tcache) (size : ℕ) :
    ((tcacheFlush t size).2 = [] ∧ (tcacheFlush t size).1.bins = t.bins) ∨
      ∃ objects, objects <+: (t.bins (sizeToClass size)).objects ∧
        (objects ++ (tcacheFlush t size).2).Perm (t.bins (sizeToClass size)).objects ∧
        BinChange t (tcacheFlush t size).1 (sizeToClass size) objects := by
  unfold tcacheFlush
  by_cases h0 : size = 0
  · rw [if_pos h0]
    exact Or.inl ⟨rfl, rfl⟩
  rw [if_neg h0]
  dsimp only
  cases hl : isLargeClassIdx (sizeToClass size) with
  | true =>
    rw [if_pos rfl]
    exact Or.inl ⟨rfl, rfl⟩
  | false =>
    rw [if_neg Bool.false_ne_true]
    obtain ⟨hperm, hprefix⟩ := tcacheFlushLoop_spec
      ((t.bins (sizeToClass size)).objects.length / 2) (t.bins (sizeToClass size)).objects
    exact Or.inr ⟨_, hprefix, hperm, not_large hl, rfl⟩

end

/-! ## the invariant -/

/-- The parts of `Custody` that a step has to keep; the capacities are words. -/
structure TcacheInv (s : TcacheSys) : Prop where
  capacity : ∀ c < NUM_SIZE_CLASSES,
    (s.tcache.bins c).objects.length ≤ (s.tcache.bins c).capacity ∧
      (s.tcache.bins c).capacity < wordSize
  once : ∀ p, s.tcache.inBins.count p + s.held.count p ≤ 1
  places : ∀ p, s.tcache.inBins.count p + s.held.count p + s.returned.count p = s.obtained.count p

namespace TcacheInv

variable {s s' : TcacheSys} {c : ℕ} {objects : List ℕ}

theorem custody (h : TcacheInv s) : s.Custody := by
  refine ⟨fun c hc => (h.capacity c hc).1, ?_, ?_, fun ptr chunk hfalse => ?_⟩
  · refine List.nodup_iff_count_le_one.mpr fun p => ?_
    rw [List.count_append]
    exact h.once p
  · refine List.perm_iff_count.mpr fun p => ?_
    rw [List.count_append, List.count_append]
    exact h.places p
  · rcases tcacheFree_cases s.tcache ptr chunk with he | ⟨-, htrue, -⟩
    · rw [he]
    · rw [htrue] at hfalse
      exact absurd hfalse (by decide)

theorem same (h : TcacheInv s) (hbins : s'.tcache.bins = s.tcache.bins) (hheld : s'.held = s.held)
    (hobt : s'.obtained = s.obtained) (hret : s'.returned = s.returned) : TcacheInv s' := by
  have hin : s'.tcache.inBins = s.tcache.inBins := by
    unfold Tcache.inBins
    rw [hbins]
  refine ⟨?_, ?_, ?_⟩
  · rw [hbins]; exact h.capacity
  · rw [hin, hheld]; exact h.once
  · rw [hin, hheld, hobt, hret]; exact h.places

/-- **Moving pointers.**  The pointers of one bin change; no pointer gets or loses a place besides
those that are newly obtained, and none is in two places. -/
theorem move (h : TcacheInv s) (hbin : BinChange s.tcache s'.tcache c objects)
    (hlen : objects.length ≤ (s.tcache.bins c).capacity)
    (hone : ∀ p, s.tcache.inBins.count p + s.held.count p ≤ 1 →
      s.tcache.inBins.count p + objects.count p + s'.held.count p ≤
        1 + (s.tcache.bins c).objects.count p)
    (hplaces : ∀ p, objects.count p + s'.held.count p + s'.returned.count p + s.obtained.count p =
      (s.tcache.bins c).objects.count p + s.held.count p + s.returned.count p +
        s'.obtained.count p) : TcacheInv s' := by
  obtain ⟨hc, hbins⟩ := hbin
  obtain ⟨rest, hold, hnew⟩ := setObjects_inBins s.tcache hc objects
  have hin : s'.tcache.inBins = (s.tcache.setObjects c objects).inBins := by
    unfold Tcache.inBins
    rw [hbins]
  have hcount : ∀ p, s'.tcache.inBins.count p + (s.tcache.bins c).objects.count p =
      s.tcache.inBins.count p + objects.count p := by
    intro p
    rw [hin, hnew.count_eq, hold.count_eq, List.count_append, List.count_append]
    omega
  refine ⟨fun j hj => ?_, fun p => ?_, fun p => ?_⟩
  · rw [hbins]
    obtain ⟨hcap, hobj⟩ := setObjects_bin s.tcache c objects j
    rw [hcap, hobj]
    refine ⟨?_, (h.capacity j hj).2⟩
    split_ifs with hjc
    · rw [hjc]
      exact hlen
    · exact (h.capacity j hj).1
  · have h1 := hcount p
    have h2 := hone p (h.once p)
    omega
  · have h1 := hcount p
    have h2 := hplaces p
    have h3 := h.places p
    omega

theorem alloc (h : TcacheInv s) (size : ℕ) : TcacheInv (s.step (.alloc size)) := by
  rcases tcacheAlloc_cases s.tcache size with
    ⟨hnone, hbins⟩ | ⟨objects, p, -, hobj, hsome, hbin⟩
  · refine h.same hbins ?_ rfl rfl
    show s.held ++ (tcacheAlloc s.tcache size).2.toList = s.held
    rw [hnone]
    exact List.append_nil _
  · have hheld : (s.step (.alloc size)).held = s.held ++ [p] := by
      show s.held ++ (tcacheAlloc s.tcache size).2.toList = _
      rw [hsome]
      rfl
    refine h.move hbin ?_ (fun q hq => ?_) fun q => ?_
    · have := (h.capacity (sizeToClass size) hbin.1).1
      rw [hobj, List.length_append] at this
      omega
    · rw [hheld, hobj, List.count_append, List.count_append]
      omega
    · rw [hheld, hobj, List.count_append, List.count_append]
      show _ + s.returned.count q + _ = _ + s.obtained.count q
      omega

theorem free (h : TcacheInv s) {ptr : ℕ} (hptr : ptr ∈ s.held) (chunk : Chunk) :
    TcacheInv (s.step (.free ptr chunk)) := by
  rcases tcacheFree_cases s.tcache ptr chunk with he | ⟨hroom, htrue, hbin⟩
  · have htcache : (s.step (.free ptr chunk)).tcache = s.tcache := by
      show (tcacheFree s.tcache ptr chunk).1 = _
      rw [he]
    refine h.same (by rw [htcache]) ?_ rfl rfl
    show (if (tcacheFree s.tcache ptr chunk).2 then _ else _) = _
    rw [he]
    exact if_neg Bool.false_ne_true
  · have hheld : (s.step (.free ptr chunk)).held = s.held.erase ptr := by
      show (if (tcacheFree s.tcache ptr chunk).2 then _ else _) = _
      rw [htrue]
      exact if_pos rfl
    have herase : ∀ q, s.held.count q = [ptr].count q + (s.held.erase ptr).count q := by
      intro q
      rw [(List.perm_cons_erase hptr).count_eq q, ← List.count_append]
      rfl
    refine h.move hbin ?_ (fun q hq => ?_) fun q => ?_
    · rw [List.length_append]
      exact hroom
    · have := herase q
      rw [hheld, List.count_append]
      omega
    · have := herase q
      rw [hheld, List.count_append]
      show _ + s.returned.count q + _ = _ + s.obtained.count q
      omega

theorem fill (h : TcacheInv s) {size : ℕ} {answer : ℕ → Option ℕ}
    (hlegal : s.Legal (.fill size answer)) : TcacheInv (s.step (.fill size answer)) := by
  rcases tcacheFill_cases s.tcache size answer with ⟨hnone, hbins⟩ | ⟨n, hn, hgot, hbin⟩
  · refine h.same hbins rfl ?_ rfl
    show s.obtained ++ (tcacheFill s.tcache size answer).2 = _
    rw [hnone, List.append_nil]
  · obtain ⟨hlen, hnd, hfrom⟩ :=
      tcacheFillLoop_spec answer (fun i p hp => (hlegal i p hp).2.2) 0 n
    have hobt : (s.step (.fill size answer)).obtained =
        s.obtained ++ tcacheFillLoop answer 0 n := by
      show s.obtained ++ (tcacheFill s.tcache size answer).2 = _
      rw [hgot]
    obtain ⟨hcap, hword⟩ := h.capacity (sizeToClass size) hbin.1
    rw [subW_eq hcap hword] at hn
    refine h.move hbin ?_ (fun q hq => ?_) fun q => ?_
    · rw [List.length_append]
      omega
    · show _ + (s.held).count q ≤ _
      rw [List.count_append]
      have hone := List.nodup_iff_count_le_one.mp hnd q
      by_cases hq' : q ∈ tcacheFillLoop answer 0 n
      · obtain ⟨j, -, hj⟩ := hfrom q hq'
        obtain ⟨hbins, hheld, -⟩ := hlegal j q hj
        rw [List.count_eq_zero_of_not_mem hbins, List.count_eq_zero_of_not_mem hheld]
        omega
      · rw [List.count_eq_zero_of_not_mem hq']
        omega
    · rw [hobt, List.count_append, List.count_append]
      show _ + s.held.count q + s.returned.count q + _ = _
      omega

theorem flush (h : TcacheInv s) (size : ℕ) : TcacheInv (s.step (.flush size)) := by
  rcases tcacheFlush_cases s.tcache size with ⟨hnone, hbins⟩ | ⟨objects, -, hperm, hbin⟩
  · refine h.same hbins rfl rfl ?_
    show s.returned ++ (tcacheFlush s.tcache size).2 = _
    rw [hnone, List.append_nil]
  · have hret : (s.step (.flush size)).returned = s.returned ++ (tcacheFlush s.tcache size).2 := rfl
    refine h.move hbin ?_ (fun q hq => ?_) fun q => ?_
    · have hlen := hperm.length_eq
      rw [List.length_append] at hlen
      have := (h.capacity (sizeToClass size) hbin.1).1
      omega
    · have hcount := hperm.count_eq q
      rw [List.count_append] at hcount
      show _ + s.held.count q ≤ _
      omega
    · have hcount := hperm.count_eq q
      rw [List.count_append] at hcount
      rw [hret, List.count_append]
      show _ + s.held.count q + _ + s.obtained.count q = _ + s.obtained.count q
      omega

/-- **Step lemma.** -/
theorem step (h : TcacheInv s) {op : TcacheOp} (hlegal : s.Legal op) : TcacheInv (s.step op) := by
  cases op with
  | alloc size => exact h.alloc size
  | free ptr chunk => exact h.free hlegal chunk
  | fill size answer => exact h.fill hlegal
  | flush size => exact h.flush size

end TcacheInv

theorem tcacheInv_init {held : List ℕ} (hheld : held.Nodup) : TcacheInv (TcacheSys.init held) := by
  have hbins : (TcacheSys.init held).tcache.inBins = [] := tcacheCreate_inBins
  refine ⟨fun c _ => ⟨Nat.zero_le _, ?_⟩, fun p => ?_, fun p => ?_⟩
  · show tcacheCapacity c < wordSize
    unfold tcacheCapacity
    split_ifs <;> decide
  · rw [hbins, List.count_nil, Nat.zero_add]
    exact List.nodup_iff_count_le_one.mp hheld p
  · rw [hbins]
    simp [TcacheSys.init]

/-- **Custody of the pointers of a tcache**, in every state of every history. -/
theorem tcache_custody (held : List ℕ) (hheld : held.Nodup) (ops : List TcacheOp)
    (hlegal : Runs.Each TcacheSys.step TcacheSys.Legal (TcacheSys.init held) ops) :
    Runs.Always TcacheSys.step TcacheSys.Custody (TcacheSys.init held) ops := by
  have hrun : Runs.Always TcacheSys.step TcacheInv (TcacheSys.init held) ops :=
    Runs.inv_always (fun s op h hop => h.step hop) (tcacheInv_init hheld) hlegal
  exact hrun.mono fun s h => h.custody

/-- The arena answers with two blocks, then NULL. -/
def twoBlocks : ℕ → Option ℕ
  | 0 => some 0x200640
  | 1 => some 0x200648
  | _ => none

/-- The record of the chunk they lie in. -/
def twoBlocksChunk : Chunk where
  baseAddr := 0x200000
  size := 0x200000
  usableOffset := 0x640
  isLarge := false
  runs := none
  numRuns := 1
  runsFree := fun _ => []
  runsFull := fun _ => []
  allocatedBytes := 0x650
  freedBytes := 0

/-- Fill the bin of eight bytes, take a block, give it back, and flush. -/
theorem tcache_custody_two : Runs.Always TcacheSys.step TcacheSys.Custody (TcacheSys.init [])
    [.fill 8 twoBlocks, .alloc 8, .free 0x200648 twoBlocksChunk, .flush 8] := by
  refine tcache_custody [] List.nodup_nil _ ⟨?_, trivial, ?_, trivial, trivial⟩
  · have hbins : (TcacheSys.init []).tcache.inBins = [] := tcacheCreate_inBins
    intro i ptr hi
    rw [hbins]
    refine ⟨List.not_mem_nil, List.not_mem_nil, fun j hj hji => ?_⟩
    match i, j with
    | 0, j => exact absurd hj (Nat.not_lt_zero j)
    | 1, 0 => exact absurd (hi.trans hji.symm) (by decide)
    | _ + 2, _ => exact absurd hi (by simp [twoBlocks])
  · show 0x200648 ∈ _
    decide

end Nomalloc
