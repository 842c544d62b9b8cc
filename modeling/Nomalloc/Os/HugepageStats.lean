import Nomalloc.Lib.Runs
import Nomalloc.Os.Hugepages

/-!
# The bytes that huge pages report as active

`hugepage_free` counts the bytes it takes away, whichever way they were mapped;
`hugepage_alloc` counts the bytes of huge pages, and not those of the fallback.

* `HugeSys`                the counters, the pages and the blocks in use;
* `hugepageAlignSize_of_dvd`, `hugepageTotal_of_dvd`   the roundings of a multiple of 2 MiB, near
                           `2^64` too;
* `hugepage_active_iff`    the counters tell the mapped bytes all along a run exactly when no
                           allocation falls back, the count stays below `2^64` and no size is freed
                           whose rounding wraps.
-/

namespace Nomalloc

open Pages

/-- A block in use, with the bytes that were mapped for it. -/
structure HugeBlock where
  ptr : ℕ
  size : ℕ
  mapped : ℕ
deriving DecidableEq

structure HugeSys where
  manager : HugepageManager
  space : AddressSpace
  live : List HugeBlock

/-- `hugepage_alloc` with the answers of the kernel, and `hugepage_free` of a block with its size. -/
inductive HugeOp
  | alloc (size : ℕ) (answers : MmapAnswers)
  | free (b : HugeBlock)

/-- `hugepage_get_active_bytes` -/
def hugepageGetActiveBytes (m : HugepageManager) : ℕ :=
  subW m.stats.totalAllocatedBytes m.stats.totalFreedBytes

namespace HugeSys

def step (page : ℕ) (s : HugeSys) : HugeOp → HugeSys
  | .alloc size answers =>
    match hugepageAlloc page s.manager s.space answers size with
    | (m, space, none) => { s with manager := m, space := space }
    | (m, space, some ptr) =>
      { manager := m
        space := space
        live := ⟨ptr, size, page * (space.pages \ s.space.pages).card⟩ :: s.live }
  | .free b =>
    { manager := (hugepageFree page s.manager s.space b.ptr b.size).1
      space := (hugepageFree page s.manager s.space b.ptr b.size).2
      live := s.live.erase b }

/-- Sizes are multiples of 2 MiB, the kernel maps fresh pages, and what is freed is in use. -/
def Legal (page : ℕ) (s : HugeSys) : HugeOp → Prop
  | .alloc size answers =>
    hugepage2mbSize ∣ size ∧ size < wordSize ∧ answers.Legal page s.space size
  | .free b => b ∈ s.live

/-- The bytes mapped for the blocks in use. -/
def mappedBytes (s : HugeSys) : ℕ := (s.live.map HugeBlock.mapped).sum

/-- The counters tell them. -/
def Told (s : HugeSys) : Prop :=
  hugepageGetActiveBytes s.manager = s.mappedBytes ∧
    s.manager.stats.totalFreedBytes ≤ s.manager.stats.totalAllocatedBytes

end HugeSys

/-- The bytes of huge pages for a multiple of 2 MiB, which the last GiB below `2^64` is not rounded
up to. -/
def hugeBytes (size : ℕ) : ℕ :=
  if hugepage1gbSize ≤ size ∧ size + hugepage1gbSize ≤ wordSize then
    (size + hugepage1gbSize - 1) / hugepage1gbSize * hugepage1gbSize
  else size

section
variable {size : ℕ}

/-- What the free takes a multiple of 2 MiB for: a size near `2^64` wraps to zero. -/
theorem hugepageAlignSize_of_dvd (hd : hugepage2mbSize ∣ size) (hlt : size < wordSize) :
    hugepageAlignSize size = if size + hugepage1gbSize ≤ wordSize then hugeBytes size else 0 := by
  have h1 : 0 < hugepage1gbSize := by decide
  have h2 : 0 < hugepage2mbSize := by decide
  have hgb : hugepage1gbSize + hugepage1gbSize ≤ wordSize := by decide
  have hroom := add_le_wordSize_of_dvd (by decide) (by decide) hd hlt
  unfold hugepageAlignSize hugeBytes
  by_cases hlarge : hugepage1gbSize ≤ size
  · rw [if_pos hlarge, hugepageRoundUp_eq h1]
    by_cases hnear : size + hugepage1gbSize ≤ wordSize
    · rw [if_pos hnear, if_pos ⟨hlarge, hnear⟩, alignUp_eq h1 (by omega)]
    · rw [if_neg hnear, alignUp_wraps hlt (by decide) (by omega)]
  · have hnear : size + hugepage1gbSize ≤ wordSize := by omega
    rw [if_neg hlarge, if_pos hnear, if_neg fun h : _ ∧ _ => hlarge h.1]
    split_ifs
    · rw [hugepageRoundUp_eq h2, alignUp_of_dvd h2 hd (by omega)]
    · rfl

/-- The pages of a multiple of 2 MiB. -/
theorem hugepageUnit_of_dvd (hd : hugepage2mbSize ∣ size) (hlt : size < wordSize) :
    hugepageUnit size = if hugepage1gbSize ≤ size ∧ size + hugepage1gbSize ≤ wordSize then
      hugepage1gbSize else hugepage2mbSize := by
  have h1 : 0 < hugepage1gbSize := by decide
  unfold hugepageUnit
  rw [hugepageAlignSize_of_dvd hd hlt]
  unfold hugeBytes
  by_cases hin : hugepage1gbSize ≤ size ∧ size + hugepage1gbSize ≤ wordSize
  · have hup : size ≤ (size + hugepage1gbSize - 1) / hugepage1gbSize * hugepage1gbSize := by
      rw [← alignUp_eq h1 (by omega)]
      exact le_alignUp h1 (by omega)
    rw [if_pos hin.2, if_pos hin, if_pos hin, if_pos (hin.1.trans hup)]
  · rw [if_neg hin, if_neg hin]
    refine if_neg fun h => hin ?_
    split_ifs at h with hnear
    · exact ⟨h, hnear⟩
    · omega

/-- Its roundings do not wrap. -/
theorem add_hugepageUnit_le (hd : hugepage2mbSize ∣ size) (hlt : size < wordSize) :
    size + hugepageUnit size ≤ wordSize := by
  rw [hugepageUnit_of_dvd hd hlt]
  split_ifs with hin
  · exact hin.2
  · exact add_le_wordSize_of_dvd (by decide) (by decide) hd hlt

theorem hugepageSizes_of_dvd (hsize : 0 < size) (hd : hugepage2mbSize ∣ size)
    (hlt : size < wordSize) : HugepageSizes size := by
  have hroom := add_hugepageUnit_le hd hlt
  exact hugepageSizes_of_unit hsize rfl (hugepageUnit_dvd dvd_rfl size).1 (by omega) (by omega)

theorem hugepageTotal_of_dvd (hd : hugepage2mbSize ∣ size) (hlt : size < wordSize) :
    hugepageTotal size = hugeBytes size := by
  have hroom := add_hugepageUnit_le hd hlt
  have hpos := isPowerOfTwo_pos (hugepageUnit_dvd dvd_rfl size).1
  have htotal := (hugepageTotal_eq hpos rfl (by omega)).2
  rw [htotal, hugepageUnit_of_dvd hd hlt]
  unfold hugeBytes
  split_ifs with hin
  · rfl
  · have h2 : 0 < hugepage2mbSize := by decide
    have hmb := add_le_wordSize_of_dvd (by decide) (by decide) hd hlt
    rw [← alignUp_eq h2 (by omega), alignUp_of_dvd h2 hd (by omega)]

end

namespace HugeSys

/-- Allocated is freed and in use, and the blocks in use are whole pages. -/
structure Inv (s : HugeSys) : Prop where
  ready : s.manager.initialized = true
  told : s.manager.stats.totalAllocatedBytes = s.manager.stats.totalFreedBytes + s.mappedBytes
  below : s.manager.stats.totalAllocatedBytes < wordSize
  block : ∀ b ∈ s.live, b.ptr ≠ 0 ∧ b.mapped = hugeBytes b.size ∧ hugepage2mbSize ∣ b.size ∧
    0 < b.size ∧ b.size < wordSize

/-- A step that the counters follow. -/
def Counted (s : HugeSys) : HugeOp → Prop
  | .alloc size answers => size ≠ 0 →
    match answers.huge with
    | some _ => s.manager.stats.totalAllocatedBytes + hugeBytes size < wordSize
    | none => s.manager.config.fallbackToRegular = false ∨ answers.regular = none
  | .free b => b.size + hugepage1gbSize ≤ wordSize

section
variable {page : ℕ} {s : HugeSys}

theorem Inv.isTold (h : s.Inv) : s.Told := by
  have htold := h.told
  have hle : s.manager.stats.totalFreedBytes ≤ s.manager.stats.totalAllocatedBytes := by omega
  refine ⟨?_, hle⟩
  unfold hugepageGetActiveBytes
  rw [subW_eq hle h.below]
  omega

/-- What an allocation does: nothing, a block that is counted, or one that is not. -/
inductive AllocStep (s : HugeSys) (size : ℕ) (answers : MmapAnswers) : HugeSys → Prop
  | none {s' : HugeSys} (hno : size ≠ 0 → answers.huge = none ∧
        (s.manager.config.fallbackToRegular = false ∨ answers.regular = none))
      (hready : s'.manager.initialized = s.manager.initialized)
      (hallocated : s'.manager.stats.totalAllocatedBytes = s.manager.stats.totalAllocatedBytes)
      (hfreed : s'.manager.stats.totalFreedBytes = s.manager.stats.totalFreedBytes)
      (hlive : s'.live = s.live) : AllocStep s size answers s'
  | counted {s' : HugeSys} {ptr : ℕ} (hsize : 0 < size) (hptr : ptr ≠ 0)
      (hyes : answers.huge = some ptr)
      (hready : s'.manager.initialized = s.manager.initialized)
      (hallocated : s'.manager.stats.totalAllocatedBytes =
        addW s.manager.stats.totalAllocatedBytes (hugeBytes size))
      (hfreed : s'.manager.stats.totalFreedBytes = s.manager.stats.totalFreedBytes)
      (hlive : s'.live = ⟨ptr, size, hugeBytes size⟩ :: s.live) : AllocStep s size answers s'
  | uncounted {s' : HugeSys} {ptr raw : ℕ} (hsize : 0 < size) (hpos : 0 < hugeBytes size)
      (hno : answers.huge = .none) (hregular : answers.regular = some raw)
      (hyes : s.manager.config.fallbackToRegular = true)
      (hallocated : s'.manager.stats.totalAllocatedBytes = s.manager.stats.totalAllocatedBytes)
      (hfreed : s'.manager.stats.totalFreedBytes = s.manager.stats.totalFreedBytes)
      (hlive : s'.live = ⟨ptr, size, hugeBytes size⟩ :: s.live) : AllocStep s size answers s'

theorem hugepageAlloc_zero (m : HugepageManager) (space : AddressSpace) (answers : MmapAnswers) :
    hugepageAlloc page m space answers 0 = (m, space, none) := by
  obtain ⟨count, he, -⟩ := @hugepageAlloc_eq page 0 space m answers
  have hzero : hugepageNumPagesNeeded 0 (hugepageUnit 0) = 0 := by decide
  rw [he, hzero]
  unfold hugepageAllocPages
  rw [if_pos (by simp)]

theorem alloc_step (hpage : isPowerOfTwo page = true) (hmb : page ∣ hugepage2mbSize) (h : s.Inv)
    {size : ℕ} {answers : MmapAnswers} (hl : s.Legal page (.alloc size answers)) :
    AllocStep s size answers (s.step page (.alloc size answers)) := by
  obtain ⟨hd, hlt, hlegal⟩ := hl
  rcases Nat.eq_zero_or_pos size with rfl | hsize
  · unfold step
    dsimp only
    rw [hugepageAlloc_zero]
    exact .none (fun h0 => absurd rfl h0) rfl rfl rfl rfl
  have hs := hugepageSizes_of_dvd hsize hd hlt
  have htotal := hugepageTotal_of_dvd hd hlt
  have hpos : 0 < hugeBytes size := htotal ▸ hsize.trans_le hs.room
  obtain ⟨m, space, r, hr⟩ : ∃ m space r,
      hugepageAlloc page s.manager s.space answers size = (m, space, r) := ⟨_, _, _, rfl⟩
  have hkeeps : ∀ ptr, r = some ptr →
      ptr ≠ 0 ∧ page * (space.pages \ s.space.pages).card = hugeBytes size := by
    rintro ptr rfl
    have hk := hugepageAlloc_spec hpage hmb hs hlegal hr
    exact ⟨hk.nonNull, (hk.bytes (isPowerOfTwo_pos hpage)).trans htotal⟩
  have hcases := hugepageAlloc_cases s.manager answers hr
  rw [htotal] at hcases
  unfold step
  dsimp only
  rw [hr]
  dsimp only at hcases ⊢
  cases hcases with
  | refused hrefused =>
    rw [h.ready] at hrefused
    exact absurd (by simpa using hrefused) hs.needed
  | @huge _ ptr hanswer hflags hallocated hfreed =>
    obtain ⟨hptr, hmapped⟩ := hkeeps ptr rfl
    exact .counted hsize hptr hanswer hflags hallocated hfreed (by dsimp only; rw [hmapped])
  | failed hanswer hno hflags hallocated hfreed =>
    exact .none (fun _ => ⟨hanswer, hno⟩) hflags hallocated hfreed rfl
  | @fallback _ _ raw ptr hanswer hregular hyes hmem hflags hallocated hfreed =>
    obtain ⟨hptr, hmapped⟩ := hkeeps ptr rfl
    exact .uncounted hsize hpos hanswer hregular hyes hallocated hfreed
      (by dsimp only; rw [hmapped])

theorem free_step_of {b : HugeBlock} (hptr : b.ptr ≠ 0) {n : ℕ}
    (halign : hugepageAlignSize b.size = n) :
    (s.step page (.free b)).manager.initialized = s.manager.initialized ∧
      (s.step page (.free b)).manager.stats.totalAllocatedBytes =
        s.manager.stats.totalAllocatedBytes ∧
      (s.step page (.free b)).manager.stats.totalFreedBytes =
        addW s.manager.stats.totalFreedBytes n := by
  unfold step
  dsimp only
  unfold hugepageFree
  rw [if_neg hptr, halign]
  exact ⟨rfl, rfl, rfl⟩

/-- What a release does: the bytes leave, and are counted unless the size wraps. -/
theorem free_step (h : s.Inv) {b : HugeBlock} (hb : b ∈ s.live) :
    (s.step page (.free b)).manager.initialized = s.manager.initialized ∧
      (s.step page (.free b)).manager.stats.totalAllocatedBytes =
        s.manager.stats.totalAllocatedBytes ∧
      (s.step page (.free b)).manager.stats.totalFreedBytes =
        addW s.manager.stats.totalFreedBytes
          (if b.size + hugepage1gbSize ≤ wordSize then b.mapped else 0) ∧
      b.mapped + (s.step page (.free b)).mappedBytes = s.mappedBytes := by
  obtain ⟨hptr, hmapped, hd, -, hlt⟩ := h.block b hb
  have halign := hugepageAlignSize_of_dvd hd hlt
  rw [← hmapped] at halign
  obtain ⟨hready, hallocated, hfreed⟩ := @free_step_of page s b hptr _ halign
  refine ⟨hready, hallocated, hfreed, ?_⟩
  have hperm := List.perm_cons_erase hb
  show b.mapped + ((s.live.erase b).map HugeBlock.mapped).sum = (s.live.map HugeBlock.mapped).sum
  rw [(hperm.map HugeBlock.mapped).sum_eq, List.map_cons, List.sum_cons]

theorem Inv.step (hpage : isPowerOfTwo page = true) (hmb : page ∣ hugepage2mbSize) (h : s.Inv)
    {op : HugeOp} (hl : s.Legal page op) (hc : s.Counted op) : (s.step page op).Inv := by
  cases op with
  | alloc size answers =>
    cases alloc_step hpage hmb h hl with
    | none hno hready hallocated hfreed hlive =>
      have hbytes : (s.step page (.alloc size answers)).mappedBytes = s.mappedBytes := by
        unfold mappedBytes
        rw [hlive]
      refine ⟨hready.trans h.ready, ?_, ?_, ?_⟩
      · rw [hallocated, hfreed, hbytes, h.told]
      · rw [hallocated]
        exact h.below
      · rw [hlive]
        exact h.block
    | counted hsize hptr hyes hready hallocated hfreed hlive =>
      have hfit := hc hsize.ne'
      rw [hyes] at hfit
      dsimp only at hfit
      have hbytes : (s.step page (.alloc size answers)).mappedBytes =
          hugeBytes size + s.mappedBytes := by
        unfold mappedBytes
        rw [hlive, List.map_cons, List.sum_cons]
      rw [addW_eq hfit] at hallocated
      refine ⟨hready.trans h.ready, ?_, ?_, ?_⟩
      · have htold := h.told
        omega
      · rw [hallocated]
        exact hfit
      · rw [hlive]
        exact List.forall_mem_cons.mpr ⟨⟨hptr, rfl, hl.1, hsize, hl.2.1⟩, h.block⟩
    | uncounted hsize hpos hno hregular hyes =>
      have hfit := hc hsize.ne'
      rw [hno] at hfit
      dsimp only at hfit
      rw [hregular, hyes] at hfit
      simp at hfit
  | free b =>
    obtain ⟨hready, hallocated, hfreed, hbytes⟩ := @free_step page s h b hl
    have htold := h.told
    have hbelow := h.below
    have hnear : b.size + hugepage1gbSize ≤ wordSize := hc
    rw [if_pos hnear, addW_eq (by omega)] at hfreed
    refine ⟨hready.trans h.ready, by omega, by omega, fun c hmem => ?_⟩
    exact h.block c (List.mem_of_mem_erase hmem)

/-- A step that is not counted shows at once. -/
theorem Inv.not_told (hpage : isPowerOfTwo page = true) (hmb : page ∣ hugepage2mbSize) (h : s.Inv)
    {op : HugeOp} (hl : s.Legal page op) (hc : ¬ s.Counted op) : ¬ (s.step page op).Told := by
  rintro ⟨hactive, hle⟩
  have htold := h.told
  have hbelow := h.below
  unfold hugepageGetActiveBytes at hactive
  cases op with
  | alloc size answers =>
    cases alloc_step hpage hmb h hl with
    | none hno =>
      refine hc fun hsize => ?_
      obtain ⟨hanswer, hno⟩ := hno hsize
      rw [hanswer]
      exact hno
    | counted hsize hptr hyes hready hallocated hfreed hlive =>
      -- the count wraps
      have hwrap : ¬ s.manager.stats.totalAllocatedBytes + hugeBytes size < wordSize := fun hlt =>
        hc fun _ => by
          rw [hyes]
          exact hlt
      have hbytes : (s.step page (.alloc size answers)).mappedBytes =
          hugeBytes size + s.mappedBytes := by
        unfold mappedBytes
        rw [hlive, List.map_cons, List.sum_cons]
      rw [hallocated, hfreed] at hle
      rw [hallocated, hfreed, hbytes, subW_eq hle (addW_lt _ _)] at hactive
      have hlt := addW_lt s.manager.stats.totalAllocatedBytes (hugeBytes size)
      omega
    | uncounted hsize hpos hno hregular hyes hallocated hfreed hlive =>
      have hbytes : (s.step page (.alloc size answers)).mappedBytes =
          hugeBytes size + s.mappedBytes := by
        unfold mappedBytes
        rw [hlive, List.map_cons, List.sum_cons]
      rw [hallocated, hfreed] at hle
      rw [hallocated, hfreed, hbytes, subW_eq hle hbelow] at hactive
      omega
  | free b =>
    obtain ⟨-, hmapped, hd, hpos, hlt⟩ := h.block b hl
    obtain ⟨-, hallocated, hfreed, hbytes⟩ := @free_step page s h b hl
    have hnear : ¬ b.size + hugepage1gbSize ≤ wordSize := hc
    have hroom : 0 < b.mapped := by
      rw [hmapped, ← hugepageTotal_of_dvd hd hlt]
      exact hpos.trans_le (hugepageSizes_of_dvd hpos hd hlt).room
    rw [if_neg hnear, addW_eq (by omega), Nat.add_zero] at hfreed
    rw [hallocated, hfreed] at hle
    rw [hallocated, hfreed, subW_eq hle hbelow] at hactive
    omega

end

/-- `hugepage_init`, with what `hugepage_configure` may have set since. -/
def init (config : HugepageConfig) (space : AddressSpace) : HugeSys where
  manager := { hugepageInit gHugepageManager with config := config }
  space := space
  live := []

theorem inv_init (config : HugepageConfig) (space : AddressSpace) : (init config space).Inv :=
  ⟨rfl, rfl, (by decide : 0 < wordSize), fun b hb => absurd hb List.not_mem_nil⟩

/-- **Active bytes**: they are those mapped for the blocks in use, in every state of a run, exactly
when every step is one that the counters follow. -/
theorem hugepage_active_iff {page : ℕ} (hpage : isPowerOfTwo page = true)
    (hmb : page ∣ hugepage2mbSize) (config : HugepageConfig) (space : AddressSpace)
    {ops : List HugeOp}
    (hl : Runs.Each (HugeSys.step page) (HugeSys.Legal page) (init config space) ops) :
    Runs.Always (HugeSys.step page) HugeSys.Told (init config space) ops ↔
      Runs.Each (HugeSys.step page) HugeSys.Counted (init config space) ops :=
  Runs.always_iff_each_of (fun _ _ h hl hc => h.step hpage hmb hl hc) (fun _ h => h.isTold)
    (fun _ _ h hl hc => h.not_told hpage hmb hl hc) (inv_init config space) hl

/-- 2 MiB in a huge page, and back. -/
theorem hugepage_active_2mb : Runs.Always (HugeSys.step 4096) HugeSys.Told
    (init ⟨true, true, false⟩ ⟨∅, []⟩)
    [.alloc 2097152 ⟨some 2097152, none⟩, .free ⟨2097152, 2097152, 2097152⟩] := by
  have hlive : ⟨2097152, 2097152, 2097152⟩ ∈ (HugeSys.step 4096
      (init ⟨true, true, false⟩ ⟨∅, []⟩) (.alloc 2097152 ⟨some 2097152, none⟩)).live := by
    decide +kernel
  have hfit : 0 + hugeBytes 2097152 < wordSize := by decide
  have hnear : 2097152 + hugepage1gbSize ≤ wordSize := by decide
  have hrun : Runs.Each (HugeSys.step 4096) (HugeSys.Legal 4096) (init ⟨true, true, false⟩ ⟨∅, []⟩)
      [.alloc 2097152 ⟨some 2097152, none⟩, .free ⟨2097152, 2097152, 2097152⟩] :=
    ⟨⟨by decide, by decide, hugepageAlloc_at_2mb 2097152 (by decide)⟩, hlive, trivial⟩
  exact (hugepage_active_iff (by decide) (by decide) _ _ hrun).mpr ⟨fun _ => hfit, hnear, trivial⟩

/-- 2 MiB from the fallback, on pages of 64 KiB: no byte is counted. -/
theorem hugepage_active_misses_fallback :
    Runs.Each (HugeSys.step 65536) (HugeSys.Legal 65536) (init ⟨true, true, false⟩ ⟨∅, []⟩)
      [.alloc 2097152 ⟨none, some 2097152⟩] ∧
    ¬ Runs.Always (HugeSys.step 65536) HugeSys.Told (init ⟨true, true, false⟩ ⟨∅, []⟩)
      [.alloc 2097152 ⟨none, some 2097152⟩] := by
  have hlegal : MmapAnswers.Legal ⟨none, some 2097152⟩ 65536 ⟨∅, []⟩ 2097152 := by
    refine ⟨fun ptr hptr => (by cases hptr), fun raw hraw => ?_⟩
    cases hraw
    exact ⟨by decide, by decide, by decide, by decide, Finset.disjoint_empty_left _⟩
  refine ⟨⟨⟨by decide, by decide, hlegal⟩, trivial⟩, ?_⟩
  rintro ⟨-, hactive, -⟩
  revert hactive
  unfold mappedBytes
  decide +kernel

end HugeSys

end Nomalloc
