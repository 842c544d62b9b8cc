import Nomalloc.Cache.TcacheCustody
import Nomalloc.Memory.ArenaServe

/-!
# The classes of the blocks in a tcache

`tcache_free` takes the first class whose size divides the offset of the pointer in its chunk.  The
record of a chunk and the sizes of all classes are multiples of eight, so that this is class zero,
whatever the block was allocated as.

* `SmallBlock`              where the blocks of the small path of `arena_malloc` lie;
* `tcacheFreeClass_block`   the class that `tcache_free` takes for one;
* `ClassedTcache`           a tcache, with the class every pointer in it was allocated for;
* `tcache_blocks_fit`       what `tcache_alloc` returns is a block of a class that fits;
* `free_then_alloc_iff`     a block that is freed is found again exactly when it is of class zero.
-/

namespace Nomalloc

/-! ## the sizes -/

theorem sizeToClass_fits {s : ℕ} (hs : s ≤ SIZE_CLASS_MEDIUM_MAX) :
    s ≤ classToSize (sizeToClass s) ∧ 8 ≤ classToSize (sizeToClass s) := by
  have hmin : ∀ c < 29, 8 ≤ classToSize c := by decide
  rcases Nat.lt_or_ge SIZE_CLASS_SMALL_MAX s with hmed | hsmall
  swap
  · obtain ⟨hc, hfit, -⟩ := sizeToClass_small hsmall
    exact ⟨hfit, hmin _ hc⟩
  · obtain ⟨i, hi, he, hfit, -⟩ := sizeToClassMedium_spec hmed hs
    have hbig : 8 ≤ SIZE_CLASS_SMALL_MAX := by decide
    rw [sizeToClass_of_medium hmed hs, he, classToSize_medium hi]
    exact ⟨hfit, by omega⟩

/-! ## the blocks -/

/-- The class of a request that takes the small path. -/
def IsBlockClass (c : ℕ) : Prop := ∃ s, s ≤ SIZE_CLASS_MEDIUM_MAX ∧ c = sizeToClass s

/-- A block of class `c` in the chunk: behind its record, `k` runs and `b` blocks. -/
def SmallBlock (chunk : Chunk) (ptr c : ℕ) : Prop :=
  ∃ k b, ptr = chunk.baseAddr + chunk.usableOffset + k * CHUNK_RUN_SIZE + b * classToSize c ∧
    ptr + classToSize c ≤ chunk.baseAddr + chunk.size

section
variable {chunk : Chunk} {p ptr c : ℕ}

theorem IsBlockClass.pos (h : IsBlockClass c) : 8 ≤ classToSize c := by
  obtain ⟨s, hs, rfl⟩ := h
  exact (sizeToClass_fits hs).2

/-- Every block is at a multiple of eight. -/
theorem SmallBlock.offset (hpl : InPlace chunk p) (h : SmallBlock chunk ptr c)
    (hc : IsBlockClass c) : ∃ n, ptr = p + n ∧ 8 ∣ n ∧ n < CHUNK_DEFAULT_SIZE := by
  obtain ⟨k, b, hptr, hend⟩ := h
  have hpos := hc.pos
  rw [hpl.baseAddr, hpl.offset] at hptr
  rw [hpl.baseAddr, hpl.size] at hend
  refine ⟨SIZEOF_CHUNK + k * CHUNK_RUN_SIZE + b * classToSize c, by omega, ?_, by omega⟩
  have hrecord : 8 ∣ SIZEOF_CHUNK := by decide
  have hrun : 8 ∣ CHUNK_RUN_SIZE := by decide
  exact dvd_add (dvd_add hrecord (hrun.mul_left k)) ((classToSize_dvd c).mul_left b)

/-- **The class that is guessed** for a block is zero. -/
theorem tcacheFreeClass_block (hpl : InPlace chunk p) (h : SmallBlock chunk ptr c)
    (hc : IsBlockClass c) : tcacheFreeClass chunk ptr = 0 := by
  obtain ⟨n, rfl, h8, hn⟩ := h.offset hpl hc
  have hbelow := hpl.mapping.below
  have hoff : subW (p + n) chunk.baseAddr = n := by
    rw [hpl.baseAddr, subW_eq (Nat.le_add_right p n) (by omega)]
    exact Nat.add_sub_cancel_left p n
  have hrange : List.range NUM_SIZE_CLASSES = 0 :: (List.range (NUM_SIZE_CLASSES - 1)).map (· + 1) := by
    decide
  unfold tcacheFreeClass
  dsimp only
  rw [hoff, hrange, List.find?_cons_of_pos]
  · rfl
  · rw [decide_eq_true_eq, classToSize_zero, hpl.size]
    exact ⟨by decide, Nat.dvd_iff_mod_eq_zero.mp h8, hn⟩

end

/-! ## a tcache and the classes of its blocks -/

/-- A tcache, and the pointers of every bin with the class that each was allocated for. -/
structure ClassedTcache where
  tcache : Tcache
  blocks : ℕ → List (ℕ × ℕ)

/-- A call; the block that is freed was allocated for class `c`. -/
inductive ClassedOp where
  | alloc (size : ℕ)
  | free (ptr : ℕ) (chunk : Chunk) (c : ℕ)
  | fill (size : ℕ) (answer : ℕ → Option ℕ)
  | flush (size : ℕ)

/-- The class of what `tcache_fill` asks the arena for. -/
def fillClass (size : ℕ) : ℕ := sizeToClass (classToSize (sizeToClass size))

namespace ClassedTcache

/-- A fresh tcache. -/
def init : ClassedTcache := ⟨tcacheCreate, fun _ => []⟩

def step (s : ClassedTcache) : ClassedOp → ClassedTcache
  | .alloc size =>
    let r := tcacheAlloc s.tcache size
    let c := sizeToClass size
    ⟨r.1, if r.2.isSome then Function.update s.blocks c (s.blocks c).dropLast else s.blocks⟩
  | .free ptr chunk c =>
    let r := tcacheFree s.tcache ptr chunk
    let i := tcacheFreeClass chunk ptr
    ⟨r.1, if r.2 then Function.update s.blocks i (s.blocks i ++ [(ptr, c)]) else s.blocks⟩
  | .fill size answer =>
    let r := tcacheFill s.tcache size answer
    let c := sizeToClass size
    ⟨r.1, Function.update s.blocks c (s.blocks c ++ r.2.map fun ptr => (ptr, fillClass size))⟩
  | .flush size =>
    let r := tcacheFlush s.tcache size
    let c := sizeToClass size
    ⟨r.1, Function.update s.blocks c ((s.blocks c).take (r.1.bins c).objects.length)⟩

end ClassedTcache

/-- The pointer is that of a block of the class, in some chunk. -/
def IsBlock (ptr c : ℕ) : Prop :=
  IsBlockClass c ∧ ∃ p chunk, InPlace chunk p ∧ SmallBlock chunk ptr c

/-- The pointers that come to the tcache are blocks of the small path. -/
def ClassedOp.Legal : ClassedOp → Prop
  | .free ptr chunk c => IsBlockClass c ∧ InPlace chunk (ptrToChunk ptr) ∧ SmallBlock chunk ptr c
  | .fill size answer => ∀ i ptr, answer i = some ptr →
      ∃ p chunk, InPlace chunk p ∧ SmallBlock chunk ptr (fillClass size)
  | _ => True

/-- The pointer that is returned is that of a block of at least the size asked for. -/
def ClassedOp.Fits (s : ClassedTcache) : ClassedOp → Prop
  | .alloc size => ∀ ptr, (tcacheAlloc s.tcache size).2 = some ptr →
      ∃ c, (s.blocks (sizeToClass size)).getLast? = some (ptr, c) ∧ IsBlock ptr c ∧
        size ≤ classToSize c
  | _ => True

/-- No block is in a bin of larger blocks. -/
structure BlocksOk (s : ClassedTcache) : Prop where
  listed : ∀ i, (s.blocks i).map Prod.fst = (s.tcache.bins i).objects
  fits : ∀ i, ∀ b ∈ s.blocks i, IsBlock b.1 b.2 ∧ classToSize i ≤ classToSize b.2

theorem tcacheFillLoop_mem {answer : ℕ → Option ℕ} {i n ptr : ℕ}
    (hptr : ptr ∈ tcacheFillLoop answer i n) : ∃ j, answer j = some ptr := by
  induction n generalizing i with
  | zero => exact absurd hptr List.not_mem_nil
  | succ n ih =>
    unfold tcacheFillLoop at hptr
    cases ha : answer i with
    | none =>
      rw [ha] at hptr
      exact absurd hptr List.not_mem_nil
    | some q =>
      rw [ha] at hptr
      rcases List.mem_cons.mp hptr with rfl | hptr
      · exact ⟨i, ha⟩
      · exact ih hptr

namespace BlocksOk

variable {s s' : ClassedTcache} {c size : ℕ}

theorem same (h : BlocksOk s) (hbins : s'.tcache.bins = s.tcache.bins)
    (hblocks : s'.blocks = s.blocks) : BlocksOk s' := by
  refine ⟨?_, ?_⟩
  · rw [hblocks, hbins]
    exact h.listed
  · rw [hblocks]
    exact h.fits

theorem change (h : BlocksOk s) {objects : List ℕ} (hbin : BinChange s.tcache s'.tcache c objects)
    {bs : List (ℕ × ℕ)} (hblocks : s'.blocks = Function.update s.blocks c bs)
    (hlisted : bs.map Prod.fst = objects)
    (hfits : ∀ b ∈ bs, b ∉ s.blocks c → IsBlock b.1 b.2 ∧ classToSize c ≤ classToSize b.2) :
    BlocksOk s' := by
  refine ⟨fun i => ?_, fun i b hb => ?_⟩
  · rw [hbin.2, (setObjects_bin s.tcache c objects i).2, hblocks]
    by_cases hi : i = c
    · subst hi
      rw [Function.update_self, if_pos rfl]
      exact hlisted
    · rw [Function.update_of_ne hi, if_neg hi]
      exact h.listed i
  · rw [hblocks] at hb
    by_cases hi : i = c
    · subst hi
      rw [Function.update_self] at hb
      by_cases hold : b ∈ s.blocks i
      · exact h.fits i b hold
      · exact hfits b hb hold
    · rw [Function.update_of_ne hi] at hb
      exact h.fits i b hb

theorem last (h : BlocksOk s) {objects : List ℕ} {ptr : ℕ}
    (hobj : (s.tcache.bins c).objects = objects ++ [ptr]) :
    ∃ bs b, s.blocks c = bs ++ [(ptr, b)] ∧ bs.map Prod.fst = objects := by
  have hlisted := (h.listed c).trans hobj
  obtain ⟨bs, bs', hsplit, hbs, hbs'⟩ := List.map_eq_append_iff.mp hlisted
  obtain ⟨x, rfl, rfl⟩ := List.map_eq_singleton_iff.mp hbs'
  exact ⟨bs, x.2, hsplit, hbs⟩

theorem alloc (h : BlocksOk s) (size : ℕ) : BlocksOk (s.step (.alloc size)) := by
  rcases tcacheAlloc_cases s.tcache size with
    ⟨hnone, hbins⟩ | ⟨objects, ptr, -, hobj, hsome, hbin⟩
  · refine h.same hbins ?_
    show (if (tcacheAlloc s.tcache size).2.isSome then _ else _) = _
    rw [hnone]
    exact if_neg Bool.false_ne_true
  · obtain ⟨bs, b, hsplit, hbs⟩ := h.last hobj
    have hblocks : (s.step (.alloc size)).blocks = Function.update s.blocks (sizeToClass size) bs := by
      show (if (tcacheAlloc s.tcache size).2.isSome then _ else _) = _
      rw [hsome, hsplit, List.dropLast_concat]
      exact if_pos rfl
    refine h.change hbin hblocks hbs fun x hx hold => absurd ?_ hold
    rw [hsplit]
    exact List.mem_append_left _ hx

/-- A block that is freed goes to the bin of the smallest class. -/
theorem free (h : BlocksOk s) {ptr : ℕ} {chunk : Chunk} (hlegal : (ClassedOp.free ptr chunk c).Legal) :
    BlocksOk (s.step (.free ptr chunk c)) := by
  obtain ⟨hc, hpl, hblock⟩ := hlegal
  have hzero := tcacheFreeClass_block hpl hblock hc
  rcases tcacheFree_cases s.tcache ptr chunk with he | ⟨-, htrue, hbin⟩
  · refine h.same ?_ ?_
    · show (tcacheFree s.tcache ptr chunk).1.bins = _
      rw [he]
    · show (if (tcacheFree s.tcache ptr chunk).2 then _ else _) = _
      rw [he]
      exact if_neg Bool.false_ne_true
  · rw [hzero] at hbin
    have hblocks : (s.step (.free ptr chunk c)).blocks =
        Function.update s.blocks 0 (s.blocks 0 ++ [(ptr, c)]) := by
      show (if (tcacheFree s.tcache ptr chunk).2 then _ else _) = _
      rw [htrue, hzero]
      exact if_pos rfl
    refine h.change hbin hblocks ?_ fun x hx hold => ?_
    · rw [List.map_append, h.listed]
      rfl
    · obtain rfl := List.mem_singleton.mp ((List.mem_append.mp hx).resolve_left hold)
      exact ⟨⟨hc, _, chunk, hpl, hblock⟩, hc.pos⟩

theorem fill (h : BlocksOk s) {answer : ℕ → Option ℕ} (hlegal : (ClassedOp.fill size answer).Legal) :
    BlocksOk (s.step (.fill size answer)) := by
  have hclass := classToSize_le (sizeToClass size)
  rcases tcacheFill_cases s.tcache size answer with ⟨hnone, hbins⟩ | ⟨n, -, hgot, hbin⟩
  · refine h.same hbins ?_
    show Function.update s.blocks _ (_ ++ (tcacheFill s.tcache size answer).2.map _) = _
    rw [hnone, List.map_nil, List.append_nil]
    exact Function.update_eq_self _ _
  · have hblocks : (s.step (.fill size answer)).blocks =
        Function.update s.blocks (sizeToClass size) (s.blocks (sizeToClass size) ++
          (tcacheFillLoop answer 0 n).map fun ptr => (ptr, fillClass size)) := by
      show Function.update s.blocks _ (_ ++ (tcacheFill s.tcache size answer).2.map _) = _
      rw [hgot]
    refine h.change hbin hblocks ?_ fun x hx hold => ?_
    · rw [List.map_append, h.listed, List.map_map]
      exact congrArg _ (List.map_id _)
    · obtain ⟨ptr, hptr, rfl⟩ := List.mem_map.mp ((List.mem_append.mp hx).resolve_left hold)
      obtain ⟨i, hi⟩ := tcacheFillLoop_mem hptr
      exact ⟨⟨⟨_, hclass, rfl⟩, hlegal i ptr hi⟩, (sizeToClass_fits hclass).1⟩

theorem flush (h : BlocksOk s) (size : ℕ) : BlocksOk (s.step (.flush size)) := by
  have hblocks : (s.step (.flush size)).blocks = Function.update s.blocks (sizeToClass size)
      ((s.blocks (sizeToClass size)).take
        ((tcacheFlush s.tcache size).1.bins (sizeToClass size)).objects.length) := rfl
  rcases tcacheFlush_cases s.tcache size with ⟨-, hbins⟩ | ⟨objects, hprefix, -, hbin⟩
  · refine h.same hbins ?_
    rw [hblocks, hbins, ← h.listed, List.length_map, List.take_length]
    exact Function.update_eq_self _ _
  · have hobj : ((tcacheFlush s.tcache size).1.bins (sizeToClass size)).objects = objects := by
      rw [hbin.2, (setObjects_bin s.tcache _ objects _).2, if_pos rfl]
    rw [hobj] at hblocks
    refine h.change hbin hblocks ?_ fun x hx hold => absurd (List.mem_of_mem_take hx) hold
    rw [List.map_take, h.listed]
    exact (List.prefix_iff_eq_take.mp hprefix).symm

theorem init : BlocksOk ClassedTcache.init := ⟨fun _ => rfl, fun _ _ hb => absurd hb List.not_mem_nil⟩

theorem step (h : BlocksOk s) {op : ClassedOp} (hlegal : op.Legal) : BlocksOk (s.step op) := by
  cases op with
  | alloc size => exact h.alloc size
  | free ptr chunk c => exact h.free hlegal
  | fill size answer => exact h.fill hlegal
  | flush size => exact h.flush size

/-- A block that is taken from a bin is at least as large as the class of the bin. -/
theorem allocFits (h : BlocksOk s) (op : ClassedOp) : op.Fits s := by
  cases op with
  | alloc size =>
    intro ptr hptr
    rcases tcacheAlloc_cases s.tcache size with
      ⟨hnone, -⟩ | ⟨objects, ptr', hsize, hobj, hsome, -⟩
    · exact absurd (hnone.symm.trans hptr) (by simp)
    · obtain rfl := Option.some.inj (hsome.symm.trans hptr)
      obtain ⟨bs, b, hsplit, -⟩ := h.last hobj
      obtain ⟨hblock, hle⟩ := h.fits _ (ptr', b) (by rw [hsplit]; simp)
      refine ⟨b, ?_, hblock, (sizeToClass_fits hsize).1.trans hle⟩
      rw [hsplit, List.getLast?_concat]
  | free ptr chunk c => exact trivial
  | fill size answer => exact trivial
  | flush size => exact trivial

end BlocksOk

/-- **What a tcache returns fits**, in every history whose pointers are blocks of the small path. -/
theorem tcache_blocks_fit {ops : List ClassedOp} (hops : ∀ op ∈ ops, op.Legal) :
    Runs.Each ClassedTcache.step ClassedOp.Fits ClassedTcache.init ops := by
  have hlegal : Runs.Each ClassedTcache.step (fun _ op => ClassedOp.Legal op) ClassedTcache.init ops :=
    Runs.each_iff_forall.mpr hops
  exact Runs.each_of_inv (fun _ _ h hop => BlocksOk.step h hop) (fun _ op h _ => h.allocFits op)
    BlocksOk.init hlegal

/-- The first block of sixteen bytes of a chunk at 2 MiB. -/
theorem firstSixteen : InPlace twoBlocksChunk CHUNK_ALIGN ∧ SmallBlock twoBlocksChunk 0x200640 1 :=
  ⟨⟨rfl, rfl, rfl, ⟨by decide, dvd_refl _, by decide, by decide⟩, by decide⟩,
    0, 0, by decide, by decide⟩

/-- A block of sixteen bytes is got from the arena, taken, freed, and taken for eight bytes. -/
theorem tcache_blocks_fit_sixteen : Runs.Each ClassedTcache.step ClassedOp.Fits ClassedTcache.init
    [.fill 16 fun i => if i = 0 then some 0x200640 else none, .alloc 16,
      .free 0x200640 twoBlocksChunk 1, .alloc 8] := by
  refine tcache_blocks_fit fun op hop => ?_
  have hclass : IsBlockClass 1 := ⟨16, by decide, by decide⟩
  simp only [List.mem_cons, List.not_mem_nil, or_false] at hop
  rcases hop with rfl | rfl | rfl | rfl
  · intro i ptr hptr
    have hptr : (if i = 0 then some 0x200640 else none) = some ptr := hptr
    split_ifs at hptr with hi
    · obtain rfl := Option.some.inj hptr
      exact ⟨_, _, firstSixteen⟩
  · trivial
  · exact ⟨hclass, firstSixteen⟩
  · trivial

/-! ## freed, and allocated again -/

/-- The pointer is that of a block that `arena_malloc` has handed out for at most 1 MiB. -/
def ArenaHeap.HandedOut (s : ArenaHeap) (ptr size : ℕ) : Prop :=
  (ptr, size) ∈ s.blocks ∧ size ≤ SIZE_CLASS_MEDIUM_MAX

/-- When the block was put into the tcache, every request of its class gets it. -/
def FreedThenAlloc (t : Tcache) (ptr : ℕ) (chunk : Chunk) (c : ℕ) : Prop :=
  (tcacheFree t ptr chunk).2 = true →
    ∀ s, 0 < s → sizeToClass s = c → (tcacheAlloc (tcacheFree t ptr chunk).1 s).2 = some ptr

section
variable {t : Tcache} {ptr s : ℕ}

/-- `tcache_alloc` for a request of a class: the newest pointer of the bin. -/
theorem tcacheAlloc_newest (hon : t.active = true) (hpos : 0 < s) (hs : s ≤ SIZE_CLASS_MEDIUM_MAX) :
    (tcacheAlloc t s).2 = (t.bins (sizeToClass s)).objects.getLast? := by
  have hlarge : isLargeClassIdx (sizeToClass s) = false :=
    Bool.eq_false_iff.mpr fun hl => Nat.not_lt.mpr hs (isLargeClassIdx_iff.mp hl)
  unfold tcacheAlloc
  rw [if_neg (by simp [hon]; omega)]
  dsimp only
  rw [hlarge, if_neg Bool.false_ne_true]
  cases (t.bins (sizeToClass s)).objects.getLast? with
  | none => rfl
  | some q => rfl

/-- `tcache_free` of a block: the bin of class zero has room, or not. -/
theorem tcacheFree_block {chunk : Chunk} (hon : t.active = true) (hptr : ptr ≠ 0)
    (hsmall : chunk.isLarge = false) (hzero : tcacheFreeClass chunk ptr = 0) :
    tcacheFree t ptr chunk = if (t.bins 0).objects.length < (t.bins 0).capacity then
      ((t.setObjects 0 ((t.bins 0).objects ++ [ptr])).countFree, true) else (t, false) := by
  unfold tcacheFree
  rw [if_neg (by simp [hon, hptr]), hsmall, if_neg Bool.false_ne_true, hzero]

/-- A small block of an arena: its size, its chunk, and the class that is guessed for it. -/
theorem HeapOk.smallBlock {heap : ArenaHeap} {xs : List (ℕ × Option ℕ)} (h : HeapOk heap xs)
    {size : ℕ} (hmem : (ptr, size) ∈ heap.blocks) (hsize : size ≤ SIZE_CLASS_MEDIUM_MAX) :
    ptr ≠ 0 ∧ size ≤ 4096 ∧ (heap.arena.chunk (ptrToChunk ptr)).isLarge = false ∧
      tcacheFreeClass (heap.arena.chunk (ptrToChunk ptr)) ptr = 0 := by
  have hplaced := h.placed _ hmem
  refine ⟨hplaced.ne_zero h.chunks, ?_⟩
  cases hplaced with
  | large p hp hlarge hfits hptr halloc hfreed => exact absurd hsize (Nat.not_le.mpr hlarge)
  | small p b hp hsmall hend hptr =>
    dsimp only at hsmall hend hptr
    have hpl : InPlace (heap.arena.chunk p) p := h.chunks.place _ hp
    have hlt : SIZEOF_CHUNK + 4096 < CHUNK_DEFAULT_SIZE := by decide
    have hchunk : ptrToChunk ptr = p := by
      rw [hptr, Nat.add_assoc]
      exact hpl.ptrToChunk_eq (by omega)
    rw [hchunk]
    refine ⟨hsmall, (h.chunks.serves p _ hp).small,
      tcacheFreeClass_block hpl ⟨0, b, ?_, ?_⟩ ⟨size, hsize, rfl⟩⟩
    · rw [hpl.baseAddr, hpl.offset, Nat.zero_mul, Nat.add_zero]
      exact hptr
    · rw [hpl.baseAddr, hpl.size]
      omega

end

/-- **A block that is freed is found again** by the next request of its class exactly when it is of
class zero, or the bin of class zero is full and the tcache refuses it. -/
theorem free_then_alloc_iff {ops : List ArenaOp}
    (hops : Runs.Each ArenaHeap.step ArenaOp.Legal ArenaHeap.init ops) {ptr size : ℕ}
    (hgiven : (Runs.after ArenaHeap.step ArenaHeap.init ops).HandedOut ptr size) {t : Tcache}
    (hon : t.active = true) (hlive : ptr ∉ t.inBins) :
    FreedThenAlloc t ptr
        ((Runs.after ArenaHeap.step ArenaHeap.init ops).arena.chunk (ptrToChunk ptr))
        (sizeToClass size) ↔
      sizeToClass size = 0 ∨ (t.bins 0).capacity ≤ (t.bins 0).objects.length := by
  obtain ⟨xs, hok⟩ := ArenaHeap.ok_run hops
  obtain ⟨hmem, hsize⟩ := hgiven
  generalize Runs.after ArenaHeap.step ArenaHeap.init ops = heap at hok hmem
  obtain ⟨hne, hclass, hsmall, hzero⟩ := hok.smallBlock hmem hsize
  generalize heap.arena.chunk (ptrToChunk ptr) = chunk at hsmall hzero
  have hfree := tcacheFree_block hon hne hsmall hzero
  unfold FreedThenAlloc
  by_cases hroom : (t.bins 0).objects.length < (t.bins 0).capacity
  swap
  · rw [hfree, if_neg hroom]
    exact iff_of_true (fun h => absurd h Bool.false_ne_true) (.inr (Nat.not_lt.mp hroom))
  rw [hfree, if_pos hroom]
  -- the bins once the block is in the first one
  have hbins : ∀ s, 0 < s → s ≤ SIZE_CLASS_MEDIUM_MAX →
      (tcacheAlloc (t.setObjects 0 ((t.bins 0).objects ++ [ptr])).countFree s).2 =
        (if sizeToClass s = 0 then (t.bins 0).objects ++ [ptr]
          else (t.bins (sizeToClass s)).objects).getLast? := by
    intro s hpos hs
    have hon' : (t.setObjects 0 ((t.bins 0).objects ++ [ptr])).countFree.active = true := hon
    rw [tcacheAlloc_newest hon' hpos hs]
    exact congrArg List.getLast? (setObjects_bin t 0 ((t.bins 0).objects ++ [ptr]) (sizeToClass s)).2
  constructor
  · intro h
    refine .inl ?_
    by_contra hc
    have hpos : 0 < size := by
      have := mt (sizeToClass_eq_zero hclass).mpr hc
      omega
    have hlast := h rfl size hpos rfl
    rw [hbins size hpos hsize, if_neg hc] at hlast
    have hlt : sizeToClass size < NUM_SIZE_CLASSES := (sizeToClass_small hclass).1.trans (by decide)
    exact hlive (mem_binned.mpr ⟨_, List.mem_range.mpr hlt, List.mem_of_getLast? hlast⟩)
  · rintro (hc | hfull) _ s hpos hs
    · have hmed : s ≤ SIZE_CLASS_MEDIUM_MAX := by
        refine not_large_le ?_
        rw [hs, hc]
        decide
      rw [hbins s hpos hmed, if_pos (hs.trans hc), List.getLast?_concat]
    · exact absurd hroom (Nat.not_lt.mpr hfull)

/-- The first block of eight bytes of a fresh arena. -/
theorem free_then_alloc_eight : FreedThenAlloc tcacheCreate (CHUNK_ALIGN + SIZEOF_CHUNK)
    ((Runs.after ArenaHeap.step ArenaHeap.init [.malloc ⟨8, givenEnv⟩]).arena.chunk
      (ptrToChunk (CHUNK_ALIGN + SIZEOF_CHUNK))) (sizeToClass 8) := by
  have hlive : CHUNK_ALIGN + SIZEOF_CHUNK ∉ tcacheCreate.inBins := by
    rw [tcacheCreate_inBins]
    exact List.not_mem_nil
  exact (free_then_alloc_iff (givenEnv_run (by decide)) ⟨by decide +kernel, by decide⟩ rfl
    hlive).mpr (.inl (by decide))

/-- A block of sixteen bytes is put into the bin of eight bytes, and not found for sixteen. -/
theorem sixteen_bytes_missed : ¬ ∀ (ops : List ArenaOp) (ptr size : ℕ) (t : Tcache),
    Runs.Each ArenaHeap.step ArenaOp.Legal ArenaHeap.init ops →
    (Runs.after ArenaHeap.step ArenaHeap.init ops).HandedOut ptr size → t.active = true →
    ptr ∉ t.inBins → FreedThenAlloc t ptr
      ((Runs.after ArenaHeap.step ArenaHeap.init ops).arena.chunk (ptrToChunk ptr))
      (sizeToClass size) := by
  intro h
  have hlive : CHUNK_ALIGN + SIZEOF_CHUNK ∉ tcacheCreate.inBins := by
    rw [tcacheCreate_inBins]
    exact List.not_mem_nil
  have hfound := h [.malloc ⟨16, givenEnv⟩] (CHUNK_ALIGN + SIZEOF_CHUNK) 16 tcacheCreate
    (givenEnv_run (by decide)) ⟨by decide +kernel, by decide⟩ rfl hlive (by decide +kernel) 16
    (by decide) rfl
  exact absurd hfound (by decide +kernel)

end Nomalloc
