import Nomalloc.Memory.ArenaServe

/-!
# The byte counters of an arena

`arena_malloc` charges the class size of a small request and the size of a large one.  `arena_free`
credits what it makes of the address: eight bytes for every small block, and for a large one all that
its chunk was charged, its record included.

* `ArenaHeap.BytesOk`    `freed_bytes` stays below `allocated_bytes`, and the difference is what the
                         blocks held were charged;
* `arena_bytes_iff`      it holds all along a run exactly when every block freed was charged eight
                         bytes and no charge makes `allocated_bytes` wrap.
-/

namespace Nomalloc

/-- `arena_get_active` -/
def arenaGetActive (a : Arena) : ℕ := subW a.allocatedBytes a.freedBytes

/-- What the blocks held were charged. -/
def ArenaHeap.charged (s : ArenaHeap) : ℕ := (s.blocks.map fun b => chargeOf b.2).sum

/-- The counters of the arena agree with the blocks held. -/
structure ArenaHeap.BytesOk (s : ArenaHeap) : Prop where
  le : s.arena.freedBytes ≤ s.arena.allocatedBytes
  active : arenaGetActive s.arena = s.charged

/-- A block that is handed out does not make `allocated_bytes` wrap; a block that is freed was
charged eight bytes. -/
def ArenaOp.CreditedInFull (s : ArenaHeap) : ArenaOp → Prop
  | .malloc call =>
    call.Obtains s.arena → s.arena.allocatedBytes + chargeOf call.size < wordSize
  | .free ptr => ∀ b, s.blocks.find? (fun b => b.1 = ptr) = some b → chargeOf b.2 = 8

section
variable {s : ArenaHeap} {a : Arena} {xs : List (ℕ × Option ℕ)} {ptr size : ℕ}

/-- A block is credited what it was charged exactly where that was eight bytes. -/
theorem credited_iff {allocated freed : ℕ} (hb : Placed a xs ptr size) (hlt : allocated < wordSize)
    (hle : freed + chargeOf size ≤ allocated) :
    addW freed (creditOf size) = freed + chargeOf size ↔ chargeOf size = 8 := by
  cases hb with
  | small p b hp hsize hend hptr =>
    have hmax : 4096 ≤ SIZE_CLASS_MEDIUM_MAX := by decide
    have hcharge := chargeOf_small (hsize.trans hmax)
    have hpos := (sizeToClass_small hsize).2.2.1
    have h8 : 8 ≤ chargeOf size := by
      rw [hcharge]
      exact Nat.le_of_dvd hpos (classToSize_dvd _)
    have hcredit : creditOf size = 8 := if_pos hsize
    rw [hcredit, addW_eq (by omega)]
    omega
  | large p hp hsize hfits hptr halloc hfreed =>
    have hmax : SIZE_CLASS_MEDIUM_MAX = 1048576 := rfl
    have hrun : CHUNK_RUN_SIZE = 4096 := rfl
    have hroom : SIZEOF_CHUNK + CHUNK_ROOM = 2097152 := by decide
    have hpos : 0 < SIZEOF_CHUNK := by decide
    have hcredit : creditOf size = SIZEOF_CHUNK + alignUp size CHUNK_RUN_SIZE := if_neg (by omega)
    have hne : creditOf size ≠ size := by
      rw [hcredit]
      by_cases hwrap : size + CHUNK_RUN_SIZE - 1 < wordSize
      · have hup : size ≤ alignUp size CHUNK_RUN_SIZE := le_alignUp (by decide) hwrap
        omega
      · -- a size this large is rounded up to zero, or fits no chunk
        rw [wordSize_eq] at hwrap
        omega
    have hcl : creditOf size < wordSize := by
      rw [hcredit, wordSize_eq]
      omega
    rw [chargeOf_large hsize] at hle ⊢
    refine iff_of_false (fun he => hne ?_) (by omega)
    rcases Nat.lt_or_ge (freed + creditOf size) wordSize with hno | hge
    · rw [addW_eq hno] at he
      omega
    · have hmod := addW_wrap hge (by omega)
      omega

theorem charged_erase {b : ℕ × ℕ} {l k : List (ℕ × ℕ)} (hsplit : s.blocks = l ++ b :: k) :
    s.charged = ((l ++ k).map fun b => chargeOf b.2).sum + chargeOf b.2 := by
  unfold ArenaHeap.charged
  rw [hsplit, List.map_append, List.map_cons, List.map_append, List.sum_append, List.sum_cons,
    List.sum_append]
  ring

theorem bytesOk_iff (hlt : s.arena.allocatedBytes < wordSize) :
    s.BytesOk ↔ s.arena.freedBytes ≤ s.arena.allocatedBytes ∧
      s.arena.allocatedBytes - s.arena.freedBytes = s.charged := by
  constructor
  · intro h
    exact ⟨h.le, (subW_eq h.le hlt).symm.trans h.active⟩
  · rintro ⟨hle, heq⟩
    exact ⟨hle, (subW_eq hle hlt).trans heq⟩

theorem bytes_malloc (h : HeapOk s xs) (hlt : s.arena.allocatedBytes < wordSize) (hb : s.BytesOk)
    {call : ArenaCall} (hcall : call.Answered s.arena) :
    (s.step (.malloc call)).arena.allocatedBytes < wordSize ∧
      ((s.step (.malloc call)).BytesOk ↔ (ArenaOp.malloc call).CreditedInFull s) := by
  obtain ⟨hle, hdiff⟩ := (bytesOk_iff hlt).mp hb
  obtain ⟨xs', hgrown, hout⟩ := arenaMalloc_spec h.chunks hcall
  have hfreed := hgrown.freed
  unfold ArenaHeap.step ArenaOp.CreditedInFull
  dsimp only
  generalize arenaMalloc s.arena call.size call.env = r at hout hfreed ⊢
  obtain ⟨a', q⟩ := r
  cases hout with
  | refused hno hbytes =>
    have hlt' : a'.allocatedBytes < wordSize := hbytes ▸ hlt
    refine ⟨hlt', iff_of_true ((bytesOk_iff hlt').mpr ?_) fun hyes => absurd hyes hno⟩
    dsimp only at hbytes hfreed ⊢
    rw [hbytes, hfreed]
    exact ⟨hle, hdiff⟩
  | served ptr hyes hplaced hnew hbytes =>
    dsimp only at hbytes hfreed ⊢
    have hlt' : a'.allocatedBytes < wordSize := hbytes ▸ addW_lt _ _
    have hcharged : ArenaHeap.charged ⟨a', (ptr, call.size) :: s.blocks⟩ =
        chargeOf call.size + s.charged := List.sum_cons
    refine ⟨hlt', (bytesOk_iff hlt').trans ?_⟩
    show _ ∧ _ = ArenaHeap.charged ⟨a', (ptr, call.size) :: s.blocks⟩ ↔ _
    rw [hcharged, hfreed, hbytes]
    constructor
    · rintro ⟨hle', hdiff'⟩ -
      have hfits := addW_lt s.arena.allocatedBytes (chargeOf call.size)
      omega
    · intro hfits
      rw [addW_eq (hfits hyes)]
      omega

theorem bytes_free (h : HeapOk s xs) (hlt : s.arena.allocatedBytes < wordSize) (hb : s.BytesOk)
    (hptr : ptr = 0 ∨ ptr ∈ s.blocks.map Prod.fst) :
    (s.step (.free ptr)).arena.allocatedBytes < wordSize ∧
      ((s.step (.free ptr)).BytesOk ↔ (ArenaOp.free ptr).CreditedInFull s) := by
  obtain ⟨hle, hdiff⟩ := (bytesOk_iff hlt).mp hb
  unfold ArenaHeap.step ArenaOp.CreditedInFull
  dsimp only
  cases hf : s.blocks.find? fun b => b.1 = ptr with
  | none =>
    have hno : ∀ b ∈ s.blocks, ¬ decide (b.1 = ptr) = true := List.find?_eq_none.mp hf
    have hz : ptr = 0 := hptr.resolve_right fun hin => by
      obtain ⟨b, hbm, he⟩ := List.mem_map.mp hin
      exact hno b hbm (decide_eq_true he)
    rw [List.eraseP_of_forall_not hno, hz]
    exact ⟨hlt, iff_of_true hb fun b he => absurd he (by simp)⟩
  | some b =>
    obtain ⟨hbp, l, k, hsplit, hbefore⟩ := List.find?_eq_some_iff_append.mp hf
    have hbptr : b.1 = ptr := of_decide_eq_true hbp
    have hplaced : Placed s.arena xs ptr b.2 := hbptr ▸ h.placed b (by rw [hsplit]; simp)
    obtain ⟨xs', hs, hfreed⟩ := arenaFree_spec h.chunks h.active hplaced
    have herase : s.blocks.eraseP (fun b => b.1 = ptr) = l ++ k := by
      have hskip : ∀ x ∈ l, ¬ decide (x.1 = ptr) = true := fun x hx => by
        simpa using hbefore x hx
      have htake : (b :: k).eraseP (fun b => b.1 = ptr) = k := List.eraseP_cons_of_pos hbp
      rw [hsplit, List.eraseP_append_right _ hskip, htake]
    have hcharged := charged_erase hsplit
    have hlt' : (arenaFree s.arena ptr).allocatedBytes < wordSize := hs.allocated ▸ hlt
    rw [herase]
    refine ⟨hlt', (bytesOk_iff hlt').trans ?_⟩
    have hroom : s.arena.freedBytes + chargeOf b.2 ≤ s.arena.allocatedBytes := by omega
    have hiff := credited_iff hplaced hlt hroom
    show (arenaFree s.arena ptr).freedBytes ≤ (arenaFree s.arena ptr).allocatedBytes ∧
      (arenaFree s.arena ptr).allocatedBytes - (arenaFree s.arena ptr).freedBytes =
        ((l ++ k).map fun b => chargeOf b.2).sum ↔ _
    rw [hs.allocated, hfreed]
    constructor
    · rintro ⟨hle', hdiff'⟩ b' he
      cases he
      exact hiff.mp (by omega)
    · intro h8
      rw [hiff.mpr (h8 b rfl)]
      omega

/-- **One call** keeps the counters in agreement exactly when it credits in full. -/
theorem bytes_step (h : HeapOk s xs) (hlt : s.arena.allocatedBytes < wordSize) (hb : s.BytesOk)
    {op : ArenaOp} (hop : op.Legal s) :
    (s.step op).arena.allocatedBytes < wordSize ∧ ((s.step op).BytesOk ↔ op.CreditedInFull s) := by
  cases op with
  | malloc call => exact bytes_malloc h hlt hb hop
  | free ptr => exact bytes_free h hlt hb hop

end

theorem bytesOk_init : ArenaHeap.init.BytesOk := ⟨le_refl 0, by decide⟩

/-- **The byte counters agree** with the blocks held, all along a run of `arena_malloc` and
`arena_free`, exactly when every call credits in full. -/
theorem arena_bytes_iff {ops : List ArenaOp}
    (hops : Runs.Each ArenaHeap.step ArenaOp.Legal ArenaHeap.init ops) :
    Runs.Always ArenaHeap.step ArenaHeap.BytesOk ArenaHeap.init ops ↔
      Runs.Each ArenaHeap.step ArenaOp.CreditedInFull ArenaHeap.init ops := by
  let Inv : ArenaHeap → Prop := fun s =>
    s.Ok ∧ s.arena.allocatedBytes < wordSize ∧ s.BytesOk
  have hstep : ∀ s op, Inv s → op.Legal s → op.CreditedInFull s → Inv (s.step op) := by
    rintro s op ⟨hs, hlt, hb⟩ hop hfull
    obtain ⟨xs, h⟩ := hs
    obtain ⟨hlt', hiff⟩ := bytes_step h hlt hb hop
    exact ⟨ArenaHeap.ok_step s op ⟨xs, h⟩ hop, hlt', hiff.mpr hfull⟩
  refine Runs.always_iff_each_of hstep (fun s hs => hs.2.2) (fun s op hs hop hbad hnext => ?_)
    ⟨ArenaHeap.ok_init, by decide, bytesOk_init⟩ hops
  obtain ⟨⟨xs, h⟩, hlt, hb⟩ := hs
  exact hbad ((bytes_step h hlt hb hop).2.mp hnext)

/-- A block of eight bytes comes and goes. -/
theorem arena_bytes_iff_eight :
    Runs.Always ArenaHeap.step ArenaHeap.BytesOk ArenaHeap.init
      [.malloc ⟨8, givenEnv⟩, .free (CHUNK_ALIGN + SIZEOF_CHUNK)] := by
  have hblocks : (ArenaHeap.init.step (.malloc ⟨8, givenEnv⟩)).blocks =
      [(CHUNK_ALIGN + SIZEOF_CHUNK, 8)] := by decide +kernel
  have hfree : CHUNK_ALIGN + SIZEOF_CHUNK ∈
      (ArenaHeap.init.step (.malloc ⟨8, givenEnv⟩)).blocks.map Prod.fst := by
    rw [hblocks]
    exact List.mem_cons_self
  have hops : Runs.Each ArenaHeap.step ArenaOp.Legal ArenaHeap.init
      [.malloc ⟨8, givenEnv⟩, .free (CHUNK_ALIGN + SIZEOF_CHUNK)] :=
    ⟨givenEnv_answered (by decide), Or.inr hfree, trivial⟩
  refine (arena_bytes_iff hops).mpr ⟨fun _ => by decide, fun b hb => ?_, trivial⟩
  rw [hblocks] at hb
  have he : (CHUNK_ALIGN + SIZEOF_CHUNK, 8) = b := Option.some.inj hb
  rw [← he]
  decide

/-- A block of sixteen bytes comes and goes, and eight bytes stay. -/
theorem sixteen_bytes_stay : ¬ ∀ ops : List ArenaOp,
    Runs.Each ArenaHeap.step ArenaOp.Legal ArenaHeap.init ops →
      Runs.Always ArenaHeap.step ArenaHeap.BytesOk ArenaHeap.init ops := by
  intro h
  have hblocks : (ArenaHeap.init.step (.malloc ⟨16, givenEnv⟩)).blocks =
      [(CHUNK_ALIGN + SIZEOF_CHUNK, 16)] := by decide +kernel
  have hfree : CHUNK_ALIGN + SIZEOF_CHUNK ∈
      (ArenaHeap.init.step (.malloc ⟨16, givenEnv⟩)).blocks.map Prod.fst := by
    rw [hblocks]
    exact List.mem_cons_self
  have hlast := (h [.malloc ⟨16, givenEnv⟩, .free (CHUNK_ALIGN + SIZEOF_CHUNK)]
    ⟨givenEnv_answered (by decide), Or.inr hfree, trivial⟩).last
  have hcounters : arenaGetActive (Runs.after ArenaHeap.step ArenaHeap.init
      [.malloc ⟨16, givenEnv⟩, .free (CHUNK_ALIGN + SIZEOF_CHUNK)]).arena = 8 := by decide +kernel
  have hnone : (Runs.after ArenaHeap.step ArenaHeap.init
      [.malloc ⟨16, givenEnv⟩, .free (CHUNK_ALIGN + SIZEOF_CHUNK)]).charged = 0 := by decide +kernel
  have heq := hlast.active
  rw [hcounters, hnone] at heq
  exact absurd heq (by decide)

end Nomalloc
