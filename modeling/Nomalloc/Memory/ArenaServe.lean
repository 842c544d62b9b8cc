import Nomalloc.Memory.ArenaChunks

/-!
# The requests an arena serves

An arena and the blocks its callers hold (`ArenaHeap`), over any history of `arena_malloc` and
`arena_free`.

* `ArenaHeap.Ok`         every block held lies in a chunk of the arena, and a large one is alone in
                         its chunk; kept by every call (`ArenaHeap.ok_run`);
* `arena_serves_iff`     where nothing is refused on the way, the requests that get a block of their
                         size are those of at most 4096 bytes, and those above 1 MiB that fit a chunk.
-/

namespace Nomalloc

/-- An arena and the blocks handed out: the address and the size asked for. -/
structure ArenaHeap where
  arena : Arena
  blocks : List (ℕ × ℕ)

inductive ArenaOp where
  | malloc (call : ArenaCall)
  | free (ptr : ℕ)

namespace ArenaHeap

def step (s : ArenaHeap) : ArenaOp → ArenaHeap
  | .malloc call =>
    let r := arenaMalloc s.arena call.size call.env
    ⟨r.1, (r.2.map fun ptr => (ptr, call.size)).toList ++ s.blocks⟩
  | .free ptr => ⟨arenaFree s.arena ptr, s.blocks.eraseP fun b => b.1 = ptr⟩

/-- A fresh arena. -/
def init : ArenaHeap := ⟨arenaCreate, []⟩

end ArenaHeap

/-- What the callers keep to: they free NULL and blocks they hold. -/
def ArenaOp.Legal (s : ArenaHeap) : ArenaOp → Prop
  | .malloc call => call.Answered s.arena
  | .free ptr => ptr = 0 ∨ ptr ∈ s.blocks.map Prod.fst

structure HeapOk (s : ArenaHeap) (xs : List (ℕ × Option ℕ)) : Prop where
  active : s.arena.active = true
  chunks : ArenaChunks s.arena xs
  placed : ∀ b ∈ s.blocks, Placed s.arena xs b.1 b.2
  alone : ∀ p, (p, none) ∈ xs → s.blocks.countP (fun b => b.1 = p + SIZEOF_CHUNK) ≤ 1

def ArenaHeap.Ok (s : ArenaHeap) : Prop := ∃ xs, HeapOk s xs

/-! ## every call keeps the blocks in their chunks -/

section
variable {s : ArenaHeap} {a a' : Arena} {xs xs' : List (ℕ × Option ℕ)} {ptr size : ℕ}

theorem Placed.home (h : Placed a xs ptr size) :
    ∃ x ∈ xs, ∃ n < CHUNK_DEFAULT_SIZE, ptr = x.1 + n := by
  cases h with
  | small p b hp hsize hend hptr =>
    refine ⟨_, hp, SIZEOF_CHUNK + b * classToSize (sizeToClass size), block_lt (by omega), ?_⟩
    rw [hptr, Nat.add_assoc]
  | large p hp hsize hfits hptr halloc hfreed => exact ⟨_, hp, SIZEOF_CHUNK, by decide, hptr⟩

theorem Placed.ne_zero (h : ArenaChunks a xs) (hb : Placed a xs ptr size) : ptr ≠ 0 := by
  obtain ⟨x, hx, n, -, rfl⟩ := hb.home
  have := (h.place x hx).mapping.ne_zero
  omega

theorem Placed.grown (hg : ArenaGrown a xs a' xs') (h : Placed a xs ptr size) :
    Placed a' xs' ptr size := by
  cases h with
  | small p b hp hsize hend hptr => exact .small p b (hg.keeps _ hp) hsize hend hptr
  | large p hp hsize hfits hptr halloc hfreed =>
    exact .large p (hg.keeps _ hp) hsize hfits hptr (by rw [hg.large p hp, halloc])
      (by rw [hg.large p hp, hfreed])

/-- Another block keeps its place when one is freed: a large one is in another chunk. -/
theorem Placed.shrunk {q : ℕ} (hs : ArenaShrunk a xs q a' xs') (h : Placed a xs ptr size)
    (hne : ∀ p, (p, none) ∈ xs → ptr = p + SIZEOF_CHUNK → ptr ≠ q) : Placed a' xs' ptr size := by
  cases h with
  | small p b hp hsize hend hptr =>
    exact .small p b ((hs.keeps _ hp).resolve_right fun hn => absurd hn.1 (by simp)) hsize hend hptr
  | large p hp hsize hfits hptr halloc hfreed =>
    have hqp : q ≠ p + SIZEOF_CHUNK := fun he => hne p hp hptr (hptr.trans he.symm)
    have hsame := hs.large p hp hqp
    exact .large p ((hs.keeps _ hp).resolve_right fun hn => hqp hn.2) hsize hfits hptr
      (by rw [hsame, halloc]) (by rw [hsame, hfreed])

namespace HeapOk

theorem malloc (h : HeapOk s xs) {call : ArenaCall} (hcall : call.Answered s.arena) :
    (s.step (.malloc call)).Ok := by
  obtain ⟨xs', hgrown, hout⟩ := arenaMalloc_spec h.chunks hcall
  -- a chunk that came holds no block that was held before
  have halone : ∀ p, (p, none) ∈ xs' → s.blocks.countP (fun b => b.1 = p + SIZEOF_CHUNK) ≤ 1 ∧
      ((p, none) ∉ xs → s.blocks.countP (fun b => b.1 = p + SIZEOF_CHUNK) = 0) := by
    intro p hp
    by_cases hin : (p, none) ∈ xs
    · exact ⟨h.alone p hin, fun hno => absurd hin hno⟩
    have hzero : s.blocks.countP (fun b => b.1 = p + SIZEOF_CHUNK) = 0 := by
      refine List.countP_eq_zero.mpr fun b hb he => ?_
      obtain ⟨x, hx, n, hn, hbx⟩ := (h.placed b hb).home
      have hsame := (hgrown.chunks.same_chunk hp (hgrown.keeps x hx) (by decide) hn
        ((of_decide_eq_true he).symm.trans hbx)).1
      have hlive := h.chunks.heads.mem_live (p := x.1) (o := x.2) hx
      exact (hgrown.fresh _ hp).elim hin fun hno => hno (hsame ▸ hlive)
    exact ⟨hzero ▸ Nat.zero_le 1, fun _ => hzero⟩
  have hplaced : ∀ b ∈ s.blocks, Placed (arenaMalloc s.arena call.size call.env).1 xs' b.1 b.2 :=
    fun b hb => (h.placed b hb).grown hgrown
  have hactive := hgrown.active.trans h.active
  refine ⟨xs', ?_⟩
  unfold ArenaHeap.step
  dsimp only
  generalize arenaMalloc s.arena call.size call.env = r at *
  obtain ⟨a', q⟩ := r
  cases hout with
  | refused hno hbytes => exact ⟨hactive, hgrown.chunks, hplaced, fun p hp => (halone p hp).1⟩
  | served ptr hyes hnew hfresh hbytes =>
    refine ⟨hactive, hgrown.chunks, fun b hb => ?_, fun p hp => ?_⟩
    · rcases List.mem_cons.mp hb with rfl | hb
      · exact hnew
      · exact hplaced b hb
    · show ((ptr, call.size) :: s.blocks).countP _ ≤ 1
      rw [List.countP_cons]
      by_cases hin : (p, none) ∈ xs
      · rw [if_neg (by simpa using hfresh p hin)]
        exact (halone p hp).1
      · rw [(halone p hp).2 hin]
        split <;> omega

theorem free (h : HeapOk s xs) (hptr : ptr = 0 ∨ ptr ∈ s.blocks.map Prod.fst) :
    (s.step (.free ptr)).Ok := by
  unfold ArenaHeap.step
  dsimp only
  rcases hptr with rfl | hin
  · have hno : ∀ b ∈ s.blocks, ¬ decide (b.1 = 0) = true := fun b hb => by
      simpa using (h.placed b hb).ne_zero h.chunks
    rw [List.eraseP_of_forall_not hno]
    exact ⟨xs, h⟩
  obtain ⟨b, hb, rfl⟩ := List.mem_map.mp hin
  obtain ⟨xs', hs, -⟩ := arenaFree_spec h.chunks h.active (h.placed b hb)
  obtain ⟨b', l, k, hl, hb', hsplit, herase⟩ :=
    List.exists_of_eraseP (p := fun x => decide (x.1 = b.1)) hb (decide_eq_true rfl)
  rw [herase]
  have hsub : ∀ x ∈ l ++ k, x ∈ s.blocks := fun x hx => by
    rw [hsplit]
    exact (List.mem_append.mp hx).elim (List.mem_append_left _)
      fun hx => List.mem_append_right _ (List.mem_cons_of_mem _ hx)
  have hle : ∀ q : ℕ × ℕ → Bool, (l ++ k).countP q ≤ s.blocks.countP q := fun q => by
    rw [hsplit]
    exact ((List.sublist_cons_self b' k).append_left l).countP_le
  refine ⟨xs', hs.active.trans h.active, hs.chunks, fun x hx => ?_, fun p hp => ?_⟩
  · refine (h.placed x (hsub x hx)).shrunk hs fun p hp hxp hxb => ?_
    -- the chunk of a large block holds no other
    have hone := h.alone p hp
    rw [hsplit, List.countP_append, List.countP_cons, if_pos, ← Nat.add_assoc] at hone
    · have hpos : 0 < (l ++ k).countP (fun b => b.1 = p + SIZEOF_CHUNK) :=
        List.countP_pos_iff.mpr ⟨x, hx, decide_eq_true hxp⟩
      rw [List.countP_append] at hpos
      omega
    · rw [of_decide_eq_true hb', ← hxb, hxp]
      simp
  · exact (hle _).trans (h.alone p (hs.sub _ hp))

end HeapOk

end

namespace ArenaHeap

theorem ok_step (s : ArenaHeap) (op : ArenaOp) (h : s.Ok) (hop : op.Legal s) : (s.step op).Ok := by
  obtain ⟨xs, h⟩ := h
  cases op with
  | malloc call => exact h.malloc hop
  | free ptr => exact h.free hop

theorem ok_init : init.Ok := by
  refine ⟨[], rfl, ⟨arenaCreate_inv.heads, fun as p bs he => absurd he (by simp), ?_, ?_, ?_⟩, ?_, ?_⟩
  · exact fun x hx => absurd hx List.not_mem_nil
  · exact fun p c hp => absurd hp List.not_mem_nil
  · exact fun p hp => absurd hp List.not_mem_nil
  · exact fun b hb => absurd hb List.not_mem_nil
  · exact fun p hp => absurd hp List.not_mem_nil

theorem ok_run {ops : List ArenaOp} (h : Runs.Each step ArenaOp.Legal init ops) :
    (Runs.after step init ops).Ok := Runs.inv_after ok_step ok_init h

end ArenaHeap

/-! ## the requests that are served -/

/-- Everything that is asked of the kernel and of libc on the way is given. -/
structure ArenaCall.AllGiven (call : ArenaCall) : Prop where
  base : call.env.base.isSome
  run : call.env.run.run.isSome
  bitmap : call.env.run.bitmap.isSome

/-- The call returns a pointer to `size` bytes behind the record of a chunk, inside the chunk. -/
def ArenaCall.Serves (a : Arena) (call : ArenaCall) : Prop :=
  ∃ ptr, (arenaMalloc a call.size call.env).2 = some ptr ∧
    ∃ p ∈ (arenaMalloc a call.size call.env).1.live,
      usableBase ((arenaMalloc a call.size call.env).1.chunk p) ≤ ptr ∧
        ptr + call.size ≤ p + ((arenaMalloc a call.size call.env).1.chunk p).size

section
variable {a : Arena} {xs : List (ℕ × Option ℕ)} {ptr size : ℕ}

theorem Placed.inside (h : ArenaChunks a xs) (hb : Placed a xs ptr size)
    (hsize : size + CHUNK_RUN_SIZE - 1 < wordSize) :
    ∃ p ∈ a.live, usableBase (a.chunk p) ≤ ptr ∧ ptr + size ≤ p + (a.chunk p).size := by
  have hroom : SIZEOF_CHUNK + CHUNK_ROOM = CHUNK_DEFAULT_SIZE := by decide
  cases hb with
  | small p b hp hsmall hend hptr =>
    have hpl := h.place _ hp
    have hfit := (sizeToClass_small hsmall).2.1
    have h4096 : 4096 ≤ CHUNK_ROOM := by decide
    refine ⟨p, h.heads.mem_live hp, ?_, ?_⟩
    · rw [hpl.usableBase_eq]
      omega
    · rw [hpl.size]
      omega
  | large p hp hlarge hfits hptr halloc hfreed =>
    have hpl := h.place _ hp
    have hle : size ≤ alignUp size CHUNK_RUN_SIZE := le_alignUp (by decide) hsize
    refine ⟨p, h.heads.mem_live hp, ?_, ?_⟩
    · rw [hpl.usableBase_eq]
      omega
    · rw [hpl.size]
      omega

/-- Where nothing is refused, the class decides whether there is a block. -/
theorem arenaHasBlock_given (h : ArenaHeads a xs) {c : ℕ} (hc : c < NUM_SIZE_CLASSES)
    {call : ArenaCall} (hgiven : call.AllGiven) (hnum : a.numChunks < a.maxChunks) :
    ArenaHasBlock a c call.env := by
  rcases h.find hc with ⟨p, -, hf⟩ | ⟨-, hf⟩
  · exact Or.inl ⟨p, hf, Or.inr ⟨hgiven.run, hgiven.bitmap⟩⟩
  · exact Or.inr ⟨hf, hnum, hgiven.base, hgiven.run, hgiven.bitmap⟩

/-- A request is served exactly when it gets a block. -/
theorem serves_iff_obtains (h : ArenaChunks a xs) {call : ArenaCall} (hcall : call.Answered a)
    (hsize : call.size + CHUNK_RUN_SIZE - 1 < wordSize) : call.Serves a ↔ call.Obtains a := by
  obtain ⟨xs', hgrown, hout⟩ := arenaMalloc_spec h hcall
  unfold ArenaCall.Serves
  generalize arenaMalloc a call.size call.env = r at *
  obtain ⟨a', q⟩ := r
  cases hout with
  | refused hno hbytes =>
    refine iff_of_false ?_ hno
    rintro ⟨ptr, hptr, -⟩
    exact absurd hptr (by simp)
  | served ptr hyes hplaced hnew hbytes =>
    exact iff_of_true ⟨ptr, rfl, hplaced.inside hgrown.chunks hsize⟩ hyes

/-- Where nothing is refused, the size decides whether a request gets a block. -/
theorem obtains_given (h : ArenaHeads a xs) (hon : a.active = true) {call : ArenaCall}
    (hgiven : call.AllGiven) (hnum : a.numChunks < a.maxChunks) (hpos : 1 ≤ call.size) :
    call.Obtains a ↔ call.size ≤ 4096 ∨ SIZE_CLASS_MEDIUM_MAX < call.size ∧
      alignUp call.size CHUNK_RUN_SIZE ≤ CHUNK_ROOM := by
  have hserved : call.Served a := ⟨by omega, hon⟩
  constructor
  · rintro (hl | hs)
    · exact Or.inr ⟨isLargeClassIdx_iff.mp hl.2.1, hl.2.2.2.2⟩
    · exact Or.inl hs.2.1
  · rintro (hs | ⟨hl, hfits⟩)
    · have hc : sizeToClass call.size < NUM_SIZE_CLASSES := (sizeToClass_small hs).1.trans (by decide)
      exact Or.inr ⟨hserved, hs, arenaHasBlock_given h hc hgiven hnum⟩
    · exact Or.inl ⟨hserved, isLargeClassIdx_iff.mpr hl, hnum, hgiven.base, hfits⟩

end

/-- **The requests that are served**, by an arena with room for another chunk: those of at most
4096 bytes, and those above 1 MiB that fit a chunk.  No request between gets a block. -/
theorem arena_serves_iff {ops : List ArenaOp}
    (hops : Runs.Each ArenaHeap.step ArenaOp.Legal ArenaHeap.init ops) {call : ArenaCall}
    (hcall : call.Answered (Runs.after ArenaHeap.step ArenaHeap.init ops).arena)
    (hgiven : call.AllGiven)
    (hnum : (Runs.after ArenaHeap.step ArenaHeap.init ops).arena.numChunks <
      (Runs.after ArenaHeap.step ArenaHeap.init ops).arena.maxChunks)
    (hpos : 1 ≤ call.size) (hsize : call.size < 2 ^ 63) :
    call.Serves (Runs.after ArenaHeap.step ArenaHeap.init ops).arena ↔
      call.size ≤ 4096 ∨ SIZE_CLASS_MEDIUM_MAX < call.size ∧
        alignUp call.size CHUNK_RUN_SIZE ≤ CHUNK_ROOM := by
  obtain ⟨xs, h⟩ := ArenaHeap.ok_run hops
  have hword : call.size + CHUNK_RUN_SIZE - 1 < wordSize := by
    have hrun : CHUNK_RUN_SIZE = 4096 := rfl
    rw [wordSize_eq]
    omega
  rw [serves_iff_obtains h.chunks hcall hword]
  exact obtains_given h.chunks.heads h.active hgiven hnum hpos

/-- The mapping at 2 MiB, and metadata at fixed addresses. -/
def givenEnv : ArenaEnv := ⟨some CHUNK_ALIGN, ⟨some 64, some 128⟩⟩

theorem givenEnv_answered {size : ℕ} (hsize : size < wordSize) :
    (⟨size, givenEnv⟩ : ArenaCall).Answered arenaCreate := by
  refine ⟨hsize, fun p hp => ?_, fun x _ p hp => absurd hp List.not_mem_nil⟩
  cases hp
  exact ⟨⟨⟨by decide, dvd_refl _, by decide, by decide⟩, by decide⟩, List.not_mem_nil⟩

theorem givenEnv_run {size : ℕ} (hsize : size < wordSize) :
    Runs.Each ArenaHeap.step ArenaOp.Legal ArenaHeap.init [.malloc ⟨size, givenEnv⟩] :=
  ⟨givenEnv_answered hsize, trivial⟩

/-- One byte is served by a fresh arena. -/
theorem arena_serves_iff_byte :
    (⟨1, givenEnv⟩ : ArenaCall).Serves (Runs.after ArenaHeap.step ArenaHeap.init []).arena :=
  (@arena_serves_iff [] trivial ⟨1, givenEnv⟩ (givenEnv_answered (by decide)) ⟨rfl, rfl, rfl⟩
    (by decide) (le_refl 1) (by decide)).mpr (Or.inl (by decide))

/-- A request of 8192 bytes gets nothing of a fresh arena, though the chunk and the run are given. -/
theorem medium_request_refused : ¬ ∀ (ops : List ArenaOp) (call : ArenaCall),
    Runs.Each ArenaHeap.step ArenaOp.Legal ArenaHeap.init ops →
    call.Answered (Runs.after ArenaHeap.step ArenaHeap.init ops).arena → call.AllGiven →
    (Runs.after ArenaHeap.step ArenaHeap.init ops).arena.numChunks <
      (Runs.after ArenaHeap.step ArenaHeap.init ops).arena.maxChunks →
    1 ≤ call.size → call.size < 2 ^ 63 →
      call.Serves (Runs.after ArenaHeap.step ArenaHeap.init ops).arena := by
  intro h
  obtain ⟨ptr, hptr, -⟩ := h [] ⟨8192, givenEnv⟩ trivial (givenEnv_answered (by decide))
    ⟨rfl, rfl, rfl⟩ (by decide) (by decide) (by decide)
  have hnull : (arenaMalloc arenaCreate 8192 givenEnv).2 = none := by rfl
  exact absurd (hnull.symm.trans hptr) (by simp)

end Nomalloc
