import Nomalloc.Utils.Memory

/-!
# Huge pages (`os/hugepages.c`)

* `hugepageAlloc`, `hugepageFree`, `hugepageAllocTransparent`, `hugepageFreeTransparent`
* `hugepageUnit`, `hugepageTotal`   the page that `hugepage_alloc` asks for, and the bytes it maps;
* `hugepageAlloc_spec`              what it leaves mapped;
* `hugepage_free_bytes_iff`         `hugepage_free` passes as many bytes to `munmap` from 2 MiB on;
* `transparent_free_exact_iff`      the sizes for which `hugepage_free_transparent` unmaps the pages
                                    of the block and no other.

The size of a regular page is a power of two that divides 2 MiB.
-/

namespace Nomalloc

open Pages

def hugepage2mbSize : ℕ := 2 * 1024 * 1024

def hugepage1gbSize : ℕ := 1024 * 1024 * 1024

/-- `struct hugepage_stats`, the counters that allocation and release keep. -/
structure HugepageStats where
  allocations2mb : ℕ
  allocations1gb : ℕ
  allocationsFailed : ℕ
  totalAllocatedBytes : ℕ
  totalFreedBytes : ℕ
deriving DecidableEq

structure HugepageConfig where
  fallbackToRegular : Bool
  transparentEnabled : Bool
  transparentAlways : Bool
deriving DecidableEq

/-- `struct hugepage_manager`; `stats` is that of its pool. -/
structure HugepageManager where
  initialized : Bool
  config : HugepageConfig
  stats : HugepageStats
deriving DecidableEq

/-- `g_hugepage_manager` before the first call. -/
def gHugepageManager : HugepageManager where
  initialized := false
  config := { fallbackToRegular := false, transparentEnabled := false, transparentAlways := false }
  stats :=
    { allocations2mb := 0, allocations1gb := 0, allocationsFailed := 0, totalAllocatedBytes := 0
      totalFreedBytes := 0 }

/-- `hugepage_init`; what it reads of the system does not change these fields. -/
def hugepageInit (m : HugepageManager) : HugepageManager :=
  if m.initialized then m
  else
    { initialized := true
      config :=
        { fallbackToRegular := true, transparentEnabled := true, transparentAlways := false }
      stats :=
        { allocations2mb := 0, allocations1gb := 0, allocationsFailed := 0
          totalAllocatedBytes := 0, totalFreedBytes := 0 } }

/-- `hugepage_round_up` -/
def hugepageRoundUp (size pageSize : ℕ) : ℕ :=
  subW (addW size pageSize) 1 / pageSize * pageSize % wordSize

/-- `hugepage_num_pages_needed` -/
def hugepageNumPagesNeeded (size pageSize : ℕ) : ℕ := hugepageRoundUp size pageSize / pageSize

/-- `hugepage_align_size` -/
def hugepageAlignSize (size : ℕ) : ℕ :=
  if hugepage1gbSize ≤ size then hugepageRoundUp size hugepage1gbSize
  else if hugepage2mbSize ≤ size then hugepageRoundUp size hugepage2mbSize
  else size

/-- What the kernel answers to the `mmap` of huge pages and to that of the fallback. -/
structure MmapAnswers where
  huge : Option ℕ
  regular : Option ℕ
deriving DecidableEq

/-- The bodies of `hugepage_alloc_2mb` and `hugepage_alloc_1gb`, for pages of `unit` bytes that
`count` counts. -/
def hugepageAllocPages (unit : ℕ) (count : HugepageStats → HugepageStats) (page : ℕ)
    (m : HugepageManager) (space : AddressSpace) (answers : MmapAnswers) (numPages : ℕ) :
    HugepageManager × AddressSpace × Option ℕ :=
  if !m.initialized || numPages == 0 then (m, space, none)
  else
    let totalSize := numPages * unit % wordSize
    match answers.huge with
    | none =>
      let m := { m with stats.allocationsFailed := addW m.stats.allocationsFailed 1 }
      if m.config.fallbackToRegular then
        (m, memoryAllocAligned page space answers.regular totalSize unit)
      else (m, space, none)
    | some ptr =>
      let stats := count m.stats
      ({ m with
          stats := { stats with
            totalAllocatedBytes := addW stats.totalAllocatedBytes totalSize } },
        space.mmap page ptr totalSize, some ptr)

/-- `hugepage_alloc_2mb` -/
def hugepageAlloc2mb (page : ℕ) : HugepageManager → AddressSpace → MmapAnswers → ℕ →
    HugepageManager × AddressSpace × Option ℕ :=
  hugepageAllocPages hugepage2mbSize
    (fun stats => { stats with allocations2mb := addW stats.allocations2mb 1 }) page

/-- `hugepage_alloc_1gb` -/
def hugepageAlloc1gb (page : ℕ) : HugepageManager → AddressSpace → MmapAnswers → ℕ →
    HugepageManager × AddressSpace × Option ℕ :=
  hugepageAllocPages hugepage1gbSize
    (fun stats => { stats with allocations1gb := addW stats.allocations1gb 1 }) page

/-- `hugepage_alloc` -/
def hugepageAlloc (page : ℕ) (m : HugepageManager) (space : AddressSpace) (answers : MmapAnswers)
    (size : ℕ) : HugepageManager × AddressSpace × Option ℕ :=
  if !m.initialized then (m, space, none)
  else if hugepage1gbSize ≤ hugepageAlignSize size then
    hugepageAlloc1gb page m space answers (hugepageNumPagesNeeded size hugepage1gbSize)
  else hugepageAlloc2mb page m space answers (hugepageNumPagesNeeded size hugepage2mbSize)

/-- `hugepage_free` -/
def hugepageFree (page : ℕ) (m : HugepageManager) (space : AddressSpace) (ptr size : ℕ) :
    HugepageManager × AddressSpace :=
  if ptr = 0 then (m, space)
  else
    let alignedSize := hugepageAlignSize size
    ({ m with stats.totalFreedBytes := addW m.stats.totalFreedBytes alignedSize },
      space.munmap page ptr alignedSize)

def hugepageEnableTransparent (m : HugepageManager) : HugepageManager :=
  if !m.initialized then m
  else { m with config := { m.config with transparentEnabled := true, transparentAlways := true } }

def hugepageDisableTransparent (m : HugepageManager) : HugepageManager :=
  if !m.initialized then m
  else { m with config := { m.config with transparentEnabled := false, transparentAlways := false } }

/-- `hugepage_alloc_transparent`; the advice given on the pages does not map any. -/
def hugepageAllocTransparent (page : ℕ) (m : HugepageManager) (space : AddressSpace)
    (raw : Option ℕ) (size : ℕ) : AddressSpace × Option ℕ :=
  if !m.initialized || !m.config.transparentEnabled then
    memoryAllocAligned page space raw size page
  else memoryAllocAligned page space raw (hugepageRoundUp size hugepage2mbSize) hugepage2mbSize

/-- `hugepage_free_transparent`; no flag is looked at. -/
def hugepageFreeTransparent (page : ℕ) (_m : HugepageManager) (space : AddressSpace)
    (ptr size : ℕ) : AddressSpace :=
  if ptr = 0 then space
  else memoryFreeAligned page space ptr (hugepageAlignSize size) hugepage2mbSize

/-- The size of the pages that `hugepage_alloc` asks for. -/
def hugepageUnit (size : ℕ) : ℕ :=
  if hugepage1gbSize ≤ hugepageAlignSize size then hugepage1gbSize else hugepage2mbSize

/-- The bytes that it maps. -/
def hugepageTotal (size : ℕ) : ℕ :=
  hugepageNumPagesNeeded size (hugepageUnit size) * hugepageUnit size % wordSize

/-- The answers of the kernel to `hugepage_alloc`. -/
structure MmapAnswers.Legal (answers : MmapAnswers) (page : ℕ) (space : AddressSpace) (size : ℕ) :
    Prop where
  huge : ∀ ptr, answers.huge = some ptr →
    Maps page wordSize space.pages ptr (hugepageTotal size)
  regular : ∀ raw, answers.regular = some raw → Maps page wordSize space.pages raw
    (alignUp (addW (hugepageTotal size) (hugepageUnit size)) page)

/-- A call that left `len` bytes, whole pages, mapped at `ptr`. -/
structure KeepsMapped (page : ℕ) (space space' : AddressSpace) (ptr len : ℕ) : Prop where
  onPage : page ∣ ptr
  nonNull : ptr ≠ 0
  below : ptr < wordSize
  whole : page ∣ len
  fresh : Disjoint space.pages (pagesOver page ptr len)
  pages : space'.pages = space.pages ∪ pagesOver page ptr len

section
variable {page size ptr : ℕ} {space space' : AddressSpace}

/-- The pages that the call left mapped. -/
theorem KeepsMapped.sdiff {len : ℕ} (h : KeepsMapped page space space' ptr len) :
    space'.pages \ space.pages = pagesOver page ptr len := by
  rw [h.pages, Finset.union_sdiff_cancel_left h.fresh]

theorem KeepsMapped.bytes {len : ℕ} (hp : 0 < page) (h : KeepsMapped page space space' ptr len) :
    page * (space'.pages \ space.pages).card = len := by
  rw [h.sdiff]
  obtain ⟨q, rfl⟩ := h.onPage
  obtain ⟨k, rfl⟩ := h.whole
  rw [Nat.mul_comm page q, Nat.mul_comm page k, pagesOver_mul hp, Nat.card_Ico,
    Nat.add_sub_cancel_left, Nat.mul_comm]

theorem MemoryAllocated.keeps {raw alignment : ℕ}
    (h : MemoryAllocated page space space' raw size alignment ptr) (hraw : raw ≠ 0)
    (hlt : raw + alignment ≤ wordSize) :
    KeepsMapped page space space' ptr (memoryKept page size alignment (ptr - raw)) where
  onPage := h.onPage
  nonNull := by
    have := h.place.1
    omega
  below := by
    have := h.place.2
    omega
  whole := h.kept.1
  fresh := h.fresh
  pages := h.pages

theorem hugepageRoundUp_eq {unit : ℕ} (hpos : 0 < unit) :
    hugepageRoundUp size unit = alignUp size unit := by
  unfold hugepageRoundUp alignUp
  rw [if_neg hpos.ne']

theorem hugepageRoundUp_sizes (hword : size + hugepage1gbSize - 1 < wordSize) :
    hugepageRoundUp size hugepage1gbSize =
        (size + hugepage1gbSize - 1) / hugepage1gbSize * hugepage1gbSize ∧
      hugepageRoundUp size hugepage2mbSize =
        (size + hugepage2mbSize - 1) / hugepage2mbSize * hugepage2mbSize := by
  have hle : hugepage2mbSize ≤ hugepage1gbSize := by decide
  have h1 : 0 < hugepage1gbSize := by decide
  have h2 : 0 < hugepage2mbSize := by decide
  rw [hugepageRoundUp_eq h1, hugepageRoundUp_eq h2, alignUp_eq h1 hword, alignUp_eq h2 (by omega)]
  exact ⟨rfl, rfl⟩

/-- The pages that `hugepage_alloc` maps for a size. -/
structure HugepageSizes (size : ℕ) : Prop where
  needed : hugepageNumPagesNeeded size (hugepageUnit size) ≠ 0
  unit_dvd : hugepageUnit size ∣ hugepageTotal size
  room : size ≤ hugepageTotal size
  below : hugepageTotal size + hugepageUnit size ≤ wordSize

/-- The pages of `unit` bytes that a size needs, and their bytes. -/
theorem hugepageTotal_eq {unit : ℕ} (hpos : 0 < unit) (hunit : hugepageUnit size = unit)
    (hword : size + unit - 1 < wordSize) :
    hugepageNumPagesNeeded size unit = (size + unit - 1) / unit ∧
      hugepageTotal size = (size + unit - 1) / unit * unit := by
  have hround : hugepageRoundUp size unit = (size + unit - 1) / unit * unit := by
    rw [hugepageRoundUp_eq hpos, alignUp_eq hpos hword]
  have hneeded : hugepageNumPagesNeeded size unit = (size + unit - 1) / unit := by
    unfold hugepageNumPagesNeeded
    rw [hround, Nat.mul_div_cancel _ hpos]
  refine ⟨hneeded, ?_⟩
  unfold hugepageTotal
  rw [hunit, hneeded]
  exact Nat.mod_eq_of_lt ((Nat.div_mul_le_self _ _).trans_lt hword)

theorem hugepageSizes_of_unit {unit : ℕ} (hsize : 0 < size) (hunit : hugepageUnit size = unit)
    (hpow : isPowerOfTwo unit = true) (hunit_lt : unit < wordSize)
    (hword : size + unit - 1 < wordSize) : HugepageSizes size := by
  have hpos := isPowerOfTwo_pos hpow
  obtain ⟨hneeded, htotal⟩ := hugepageTotal_eq hpos hunit hword
  rw [← alignUp_eq hpos hword] at htotal
  have hdvd : unit ∣ hugepageTotal size := htotal ▸ dvd_alignUp hpos hword
  refine ⟨?_, hunit ▸ hdvd, htotal ▸ le_alignUp hpos hword, ?_⟩
  · rw [hunit, hneeded]
    exact (Nat.div_pos (by omega) hpos).ne'
  · rw [hunit]
    exact add_le_wordSize_of_dvd hpow hunit_lt hdvd
      (htotal ▸ (alignUp_le hpos hword).trans_lt hword)

theorem hugepageSizes (hsize : 0 < size) (hword : size + hugepage1gbSize - 1 < wordSize) :
    HugepageSizes size := by
  have hle : hugepage2mbSize ≤ hugepage1gbSize := by decide
  by_cases hu : hugepage1gbSize ≤ hugepageAlignSize size
  · exact hugepageSizes_of_unit hsize (if_pos hu) (by decide) (by decide) hword
  · exact hugepageSizes_of_unit hsize (if_neg hu) (by decide) (by decide) (by omega)

/-- What `hugepage_free` takes the size for: from 2 MiB on the bytes that were mapped. -/
theorem hugepageAlignSize_eq (hword : size + hugepage1gbSize - 1 < wordSize) :
    hugepageAlignSize size = if hugepage2mbSize ≤ size then hugepageTotal size else size := by
  obtain ⟨h1, h2⟩ := hugepageRoundUp_sizes hword
  have halign : hugepageAlignSize size =
      if hugepage1gbSize ≤ size then
        (size + hugepage1gbSize - 1) / hugepage1gbSize * hugepage1gbSize
      else if hugepage2mbSize ≤ size then
        (size + hugepage2mbSize - 1) / hugepage2mbSize * hugepage2mbSize
      else size := by
    unfold hugepageAlignSize
    rw [h1, h2]
  have hgb : hugepage1gbSize = 1073741824 := rfl
  have hmb : hugepage2mbSize = 2097152 := rfl
  rw [hgb, wordSize_eq] at hword
  rw [hgb, hmb] at halign
  by_cases hu : hugepage1gbSize ≤ hugepageAlignSize size
  · obtain ⟨-, htotal⟩ := hugepageTotal_eq (by decide) (if_pos hu) (by rw [wordSize_eq, hgb]; omega)
    rw [hgb, halign] at hu
    rw [halign, htotal, hmb, hgb]
    split_ifs at hu ⊢ <;> omega
  · obtain ⟨-, htotal⟩ := hugepageTotal_eq (by decide) (if_neg hu) (by rw [wordSize_eq, hmb]; omega)
    rw [hgb, halign] at hu
    rw [halign, htotal, hmb]
    split_ifs at hu ⊢ <;> omega

/-- `hugepage_alloc` asks for the pages of one of the two sizes. -/
theorem hugepageAlloc_eq (m : HugepageManager) (answers : MmapAnswers) :
    ∃ count, hugepageAlloc page m space answers size =
      hugepageAllocPages (hugepageUnit size) count page m space answers
        (hugepageNumPagesNeeded size (hugepageUnit size)) ∧
      ∀ stats, (count stats).totalAllocatedBytes = stats.totalAllocatedBytes ∧
        (count stats).totalFreedBytes = stats.totalFreedBytes := by
  unfold hugepageAlloc hugepageUnit
  by_cases hi : m.initialized = true
  · rw [if_neg (by simp [hi])]
    split_ifs
    · exact ⟨_, rfl, fun _ => ⟨rfl, rfl⟩⟩
    · exact ⟨_, rfl, fun _ => ⟨rfl, rfl⟩⟩
  · refine ⟨id, ?_, fun _ => ⟨rfl, rfl⟩⟩
    unfold hugepageAllocPages
    simp [hi]

/-- What one call does for `numPages` pages of `unit` bytes, `total` bytes together. -/
inductive HugepageAllocated (page : ℕ) (m : HugepageManager) (space : AddressSpace)
    (answers : MmapAnswers) (unit numPages total : ℕ) :
    HugepageManager → AddressSpace → Option ℕ → Prop
  | refused (hrefused : (!m.initialized || numPages == 0) = true) :
      HugepageAllocated page m space answers unit numPages total m space none
  | huge {m' : HugepageManager} {ptr : ℕ} (hanswer : answers.huge = some ptr)
      (hflags : m'.initialized = m.initialized)
      (hallocated : m'.stats.totalAllocatedBytes = addW m.stats.totalAllocatedBytes total)
      (hfreed : m'.stats.totalFreedBytes = m.stats.totalFreedBytes) :
      HugepageAllocated page m space answers unit numPages total m' (space.mmap page ptr total)
        (some ptr)
  /-- no memory, with or without the fallback -/
  | failed {m' : HugepageManager} (hanswer : answers.huge = none)
      (hno : m.config.fallbackToRegular = false ∨ answers.regular = none)
      (hflags : m'.initialized = m.initialized)
      (hallocated : m'.stats.totalAllocatedBytes = m.stats.totalAllocatedBytes)
      (hfreed : m'.stats.totalFreedBytes = m.stats.totalFreedBytes) :
      HugepageAllocated page m space answers unit numPages total m' space none
  | fallback {m' : HugepageManager} {space' : AddressSpace} {raw ptr : ℕ}
      (hanswer : answers.huge = none) (hregular : answers.regular = some raw)
      (hyes : m.config.fallbackToRegular = true)
      (hmapped : memoryAllocAligned page space (some raw) total unit = (space', some ptr))
      (hflags : m'.initialized = m.initialized)
      (hallocated : m'.stats.totalAllocatedBytes = m.stats.totalAllocatedBytes)
      (hfreed : m'.stats.totalFreedBytes = m.stats.totalFreedBytes) :
      HugepageAllocated page m space answers unit numPages total m' space' (some ptr)

theorem hugepageAllocPages_cases {unit total numPages : ℕ}
    (htotal : numPages * unit % wordSize = total) {count : HugepageStats → HugepageStats}
    (hcount : ∀ stats, (count stats).totalAllocatedBytes = stats.totalAllocatedBytes ∧
      (count stats).totalFreedBytes = stats.totalFreedBytes)
    (m : HugepageManager) (answers : MmapAnswers) {r : HugepageManager × AddressSpace × Option ℕ}
    (h : hugepageAllocPages unit count page m space answers numPages = r) :
    HugepageAllocated page m space answers unit numPages total r.1 r.2.1 r.2.2 := by
  subst h
  unfold hugepageAllocPages
  rw [htotal]
  split_ifs with h0
  · exact .refused h0
  · dsimp only
    cases hhuge : answers.huge with
    | some ptr =>
      obtain ⟨hallocated, hfreed⟩ := hcount m.stats
      exact .huge hhuge rfl (by rw [← hallocated]) hfreed
    | none =>
      dsimp only
      split_ifs with hf
      · cases hreg : answers.regular with
        | none => exact .failed hhuge (.inr hreg) rfl rfl rfl
        | some raw =>
          obtain ⟨space', hmem⟩ := memoryAllocAligned_some page space raw total unit
          rw [hmem]
          exact .fallback hhuge hreg hf hmem rfl rfl rfl
      · exact .failed hhuge (.inl (Bool.eq_false_iff.mpr hf)) rfl rfl rfl

theorem hugepageAlloc_cases (m : HugepageManager) (answers : MmapAnswers)
    {r : HugepageManager × AddressSpace × Option ℕ}
    (h : hugepageAlloc page m space answers size = r) :
    HugepageAllocated page m space answers (hugepageUnit size)
      (hugepageNumPagesNeeded size (hugepageUnit size)) (hugepageTotal size) r.1 r.2.1 r.2.2 := by
  obtain ⟨count, he, hcount⟩ := hugepageAlloc_eq m answers
  rw [he] at h
  refine hugepageAllocPages_cases ?_ hcount m answers h
  unfold hugepageTotal
  rfl

/-- The pages of `hugepage_alloc` are powers of two, and whole regular pages. -/
theorem hugepageUnit_dvd (hmb : page ∣ hugepage2mbSize) (size : ℕ) :
    isPowerOfTwo (hugepageUnit size) = true ∧ page ∣ hugepageUnit size ∧
      hugepage2mbSize ∣ hugepageUnit size := by
  have hgb : hugepage2mbSize ∣ hugepage1gbSize := by decide
  unfold hugepageUnit
  split_ifs
  · exact ⟨by decide, hmb.trans hgb, hgb⟩
  · exact ⟨by decide, hmb, dvd_rfl⟩

/-- A mapping of a whole number of pages, trimmed to an alignment of whole pages. -/
theorem memoryAllocAligned_keeps {raw alignment : ℕ} (hpage : isPowerOfTwo page = true)
    (hal : isPowerOfTwo alignment = true) (hword : size + alignment + page ≤ wordSize)
    (hraw : Maps page wordSize space.pages raw (alignUp (size + alignment) page))
    (h : memoryAllocAligned page space (some raw) size alignment = (space', some ptr)) :
    KeepsMapped page space space' ptr (memoryKept page size alignment (ptr - raw)) := by
  have hp := isPowerOfTwo_pos hpage
  obtain ⟨space₁, he, hm⟩ := memoryAllocAligned_spec hpage hal hword hraw
  rw [h] at he
  cases he
  have hroom : size + alignment ≤ alignUp (size + alignment) page := le_alignUp hp (by omega)
  have hbelow := hraw.below
  exact hm.keeps hraw.nonNull (by omega)

/-- **`hugepage_alloc`** leaves the pages mapped that it asks for, on either path. -/
theorem hugepageAlloc_spec {m m' : HugepageManager} {answers : MmapAnswers}
    (hpage : isPowerOfTwo page = true) (hmb : page ∣ hugepage2mbSize) (hs : HugepageSizes size)
    (hlegal : answers.Legal page space size)
    (h : hugepageAlloc page m space answers size = (m', space', some ptr)) :
    KeepsMapped page space space' ptr (hugepageTotal size) := by
  obtain ⟨hpow, hdvd, hunit⟩ := hugepageUnit_dvd hmb size
  have htotal : page ∣ hugepageTotal size := hdvd.trans hs.unit_dvd
  have hcases := hugepageAlloc_cases m answers h
  dsimp only at hcases
  generalize hr : (some ptr : Option ℕ) = r at hcases
  cases hcases with
  | refused => cases hr
  | failed => cases hr
  | huge hanswer =>
    cases hr
    have hmaps := hlegal.huge ptr hanswer
    have hroom := hmaps.below
    have hpos := hmaps.pos
    exact ⟨hmaps.aligned, hmaps.nonNull, by omega, htotal, hmaps.fresh, rfl⟩
  | @fallback _ _ raw _ hanswer hregular _ hmapped =>
    cases hr
    have hp := isPowerOfTwo_pos hpage
    have hpageLt : page < wordSize :=
      (Nat.le_of_dvd (by decide) hmb).trans_lt (by decide)
    have hmaps := hlegal.regular raw hregular
    have hlt : hugepageTotal size + hugepageUnit size < wordSize := by
      by_contra hge
      -- the length wraps to zero, and `mmap` turns it down
      have hwrap : addW (hugepageTotal size) (hugepageUnit size) = 0 := by
        unfold addW
        rw [Nat.le_antisymm hs.below (not_lt.mp hge), Nat.mod_self]
      have hzero : alignUp 0 page = 0 := alignUp_of_dvd hp (dvd_zero page) (by omega)
      have hpos := hmaps.pos
      rw [hwrap, hzero] at hpos
      exact lt_irrefl 0 hpos
    have hroom := add_le_wordSize_of_dvd hpage hpageLt (dvd_add htotal hdvd) hlt
    rw [addW_eq hlt] at hmaps
    have hkeeps := memoryAllocAligned_keeps hpage hpow hroom hmaps hmapped
    unfold memoryKept at hkeeps
    rwa [if_pos htotal] at hkeeps

/-- The two functions round a size alike from 2 MiB on. -/
theorem hugepageAlignSize_eq_total_iff (hsize : 0 < size)
    (hword : size + hugepage1gbSize - 1 < wordSize) :
    hugepageAlignSize size = hugepageTotal size ↔ hugepage2mbSize ≤ size := by
  have hs := hugepageSizes hsize hword
  rw [hugepageAlignSize_eq hword]
  by_cases hle : hugepage2mbSize ≤ size
  · rw [if_pos hle]
    exact iff_of_true rfl hle
  · rw [if_neg hle]
    have hroom := hs.room
    have hunit : hugepage2mbSize ∣ hugepageTotal size :=
      (hugepageUnit_dvd dvd_rfl size).2.2.trans hs.unit_dvd
    have hlarge : hugepage2mbSize ≤ hugepageTotal size := Nat.le_of_dvd (by omega) hunit
    exact iff_of_false (by omega) hle

end

/-- `hugepage_free` passes to `munmap` as many bytes as `hugepage_alloc` left mapped at the block. -/
def HugepageFreesKept (page : ℕ) (m : HugepageManager) (space space' : AddressSpace)
    (ptr size : ℕ) : Prop :=
  (hugepageFree page m space' ptr size).2.munmaps =
    space'.munmaps ++ [(ptr, page * (space'.pages \ space.pages).card)]

/-- **The bytes given back** are those that were mapped exactly from 2 MiB on. -/
theorem hugepage_free_bytes_iff {page size ptr : ℕ} {space space' : AddressSpace}
    {m m' : HugepageManager} {answers : MmapAnswers} (hpage : isPowerOfTwo page = true)
    (hmb : page ∣ hugepage2mbSize) (hsize : 0 < size)
    (hword : size + hugepage1gbSize - 1 < wordSize) (hlegal : answers.Legal page space size)
    (h : hugepageAlloc page m space answers size = (m', space', some ptr)) :
    HugepageFreesKept page m' space space' ptr size ↔ hugepage2mbSize ≤ size := by
  have hkeeps := hugepageAlloc_spec hpage hmb (hugepageSizes hsize hword) hlegal h
  rw [← hugepageAlignSize_eq_total_iff hsize hword]
  unfold HugepageFreesKept hugepageFree
  rw [if_neg hkeeps.nonNull, hkeeps.bytes (isPowerOfTwo_pos hpage)]
  dsimp only [AddressSpace.munmap]
  rw [List.append_cancel_left_eq, List.cons.injEq, Prod.mk.injEq]
  exact ⟨fun heq => heq.1.2, fun heq => ⟨⟨rfl, heq⟩, rfl⟩⟩

/-- The kernel maps 2 MiB at 2 MiB. -/
theorem hugepageAlloc_at_2mb (size : ℕ) (htotal : hugepageTotal size = 2097152) :
    MmapAnswers.Legal ⟨some 2097152, none⟩ 4096 ⟨∅, []⟩ size := by
  refine ⟨fun ptr hptr => ?_, fun raw hraw => by cases hraw⟩
  cases hptr
  rw [htotal]
  exact ⟨by decide, by decide, by decide, by decide, Finset.disjoint_empty_left _⟩

/-- 2 MiB: mapped and given back. -/
theorem hugepage_free_bytes_2mb :
    ∃ m' space', HugepageFreesKept 4096 m' ⟨∅, []⟩ space' 2097152 2097152 :=
  ⟨_, _, (hugepage_free_bytes_iff (by decide) (by decide) (by decide) (by decide)
    (hugepageAlloc_at_2mb 2097152 (by decide))
    (show hugepageAlloc 4096 (hugepageInit gHugepageManager) ⟨∅, []⟩ ⟨some 2097152, none⟩ 2097152 =
      ({ hugepageInit gHugepageManager with
          stats := ⟨1, 0, 0, 2097152, 0⟩ },
        AddressSpace.mmap ⟨∅, []⟩ 4096 2097152 2097152, some 2097152) by decide +kernel)).mpr le_rfl⟩

/-- One page: 2 MiB are mapped, and 4 KiB given back. -/
theorem hugepage_free_bytes_page :
    MmapAnswers.Legal ⟨some 2097152, none⟩ 4096 ⟨∅, []⟩ 4096 ∧ ∃ m' space',
      hugepageAlloc 4096 (hugepageInit gHugepageManager) ⟨∅, []⟩ ⟨some 2097152, none⟩ 4096 =
        (m', space', some 2097152) ∧
      ¬ HugepageFreesKept 4096 m' ⟨∅, []⟩ space' 2097152 4096 := by
  have hlegal := hugepageAlloc_at_2mb 4096 (by decide)
  have hrun : hugepageAlloc 4096 (hugepageInit gHugepageManager) ⟨∅, []⟩ ⟨some 2097152, none⟩ 4096 =
      ({ hugepageInit gHugepageManager with stats := ⟨1, 0, 0, 2097152, 0⟩ },
        AddressSpace.mmap ⟨∅, []⟩ 4096 2097152 2097152, some 2097152) := by
    decide +kernel
  have hkeeps := hugepageAlloc_spec (by decide) (by decide)
    (hugepageSizes (by decide) (by decide)) hlegal hrun
  refine ⟨hlegal, _, _, hrun, ?_⟩
  unfold HugepageFreesKept
  rw [hkeeps.bytes (by decide)]
  decide +kernel

/-! ## Transparent huge pages -/

/-- The calls that change the flags. -/
inductive HugepageToggle
  | enable
  | disable

def HugepageManager.toggle (m : HugepageManager) : HugepageToggle → HugepageManager
  | .enable => hugepageEnableTransparent m
  | .disable => hugepageDisableTransparent m

def HugepageManager.transparent (m : HugepageManager) : Bool :=
  m.initialized && m.config.transparentEnabled

/-- The size and the alignment that `hugepage_alloc_transparent` asks for. -/
def transparentRequest (page : ℕ) (transparent : Bool) (size : ℕ) : ℕ × ℕ :=
  if transparent then (hugepageRoundUp size hugepage2mbSize, hugepage2mbSize) else (size, page)

/-- What it leaves mapped, in bytes. -/
def transparentKept (page : ℕ) (transparent : Bool) (size : ℕ) : ℕ :=
  if transparent then alignUp size hugepage2mbSize
  else if page ∣ size then size
  else alignUp size page + page

section
variable {page size ptr : ℕ} {space space' : AddressSpace} {m : HugepageManager}

theorem hugepageAllocTransparent_eq (raw : Option ℕ) :
    hugepageAllocTransparent page m space raw size =
      memoryAllocAligned page space raw (transparentRequest page m.transparent size).1
        (transparentRequest page m.transparent size).2 := by
  unfold hugepageAllocTransparent transparentRequest HugepageManager.transparent
  cases m.initialized <;> cases m.config.transparentEnabled <;> rfl

theorem transparentRequest_sizes (hpage : isPowerOfTwo page = true)
    (hmb : page ∣ hugepage2mbSize) (hword : size + hugepage1gbSize - 1 < wordSize)
    (transparent : Bool) :
    isPowerOfTwo (transparentRequest page transparent size).2 = true ∧
      (transparentRequest page transparent size).1 +
        (transparentRequest page transparent size).2 + page ≤ wordSize := by
  have hle : page ≤ hugepage2mbSize := Nat.le_of_dvd (by decide) hmb
  have hgb : hugepage1gbSize = 512 * hugepage2mbSize := rfl
  have h2 : 0 < hugepage2mbSize := by decide
  unfold transparentRequest
  split_ifs
  · refine ⟨(by decide : isPowerOfTwo hugepage2mbSize = true), ?_⟩
    rw [hugepageRoundUp_eq h2]
    have hup : alignUp size hugepage2mbSize ≤ size + hugepage2mbSize - 1 :=
      alignUp_le h2 (by omega)
    dsimp only
    omega
  · refine ⟨hpage, ?_⟩
    dsimp only
    omega

/-- **`hugepage_alloc_transparent`**, by the flags it finds. -/
theorem hugepageAllocTransparent_spec {raw : ℕ} (hpage : isPowerOfTwo page = true)
    (hmb : page ∣ hugepage2mbSize) (hword : size + hugepage1gbSize - 1 < wordSize)
    (hraw : Maps page wordSize space.pages raw
      (alignUp (addW (transparentRequest page m.transparent size).1
        (transparentRequest page m.transparent size).2) page))
    (h : hugepageAllocTransparent page m space (some raw) size = (space', some ptr)) :
    KeepsMapped page space space' ptr (transparentKept page m.transparent size) := by
  have hp := isPowerOfTwo_pos hpage
  have hle : page ≤ hugepage2mbSize := Nat.le_of_dvd (by decide) hmb
  have hgb : hugepage1gbSize = 512 * hugepage2mbSize := rfl
  have h2 : 0 < hugepage2mbSize := by decide
  obtain ⟨hal, hroom⟩ := transparentRequest_sizes hpage hmb hword m.transparent
  rw [hugepageAllocTransparent_eq] at h
  rw [addW_eq (by omega)] at hraw
  have hkeeps := memoryAllocAligned_keeps hpage hal hroom hraw h
  have hkept : memoryKept page (transparentRequest page m.transparent size).1
      (transparentRequest page m.transparent size).2 (ptr - raw) =
      transparentKept page m.transparent size := by
    unfold memoryKept transparentKept transparentRequest
    cases ht : m.transparent with
    | true =>
      rw [if_pos rfl, if_pos rfl]
      dsimp only
      rw [hugepageRoundUp_eq h2, if_pos (hmb.trans (dvd_alignUp h2 (by omega)))]
    | false =>
      simp only [Bool.false_eq_true, if_false]
      split_ifs with hd
      · rfl
      · -- a page is asked for beyond the size, and nothing is cut off
        have hself : ptr = raw := by
          obtain ⟨space₁, he⟩ := memoryAllocAligned_some page space raw size page
          have hrequest : transparentRequest page false size = (size, page) := rfl
          rw [ht, hrequest] at h hraw
          rw [he] at h
          have hfit : size + page ≤ alignUp (size + page) page := le_alignUp hp (by omega)
          have hup : raw + page - 1 < wordSize := by
            have hbelow := hraw.below
            dsimp only at hbelow
            omega
          rw [alignUp_of_dvd hp hraw.aligned hup] at h
          cases h
          rfl
        rw [hself, Nat.sub_self, Nat.sub_zero, alignUp_add_self hp (by omega)]
  rwa [hkept] at hkeeps

/-- The rounding of the free does not come near `2^64` either. -/
theorem hugepageAlignSize_add_le (hmb : page ∣ hugepage2mbSize) (hsize : 0 < size)
    (hword : size + hugepage1gbSize - 1 < wordSize) :
    hugepageAlignSize size + page ≤ wordSize := by
  have hle : page ≤ hugepage2mbSize := Nat.le_of_dvd (by decide) hmb
  have hgb : hugepage1gbSize = 512 * hugepage2mbSize := rfl
  have h2 : 0 < hugepage2mbSize := by decide
  have hs := hugepageSizes hsize hword
  have hunit := Nat.le_of_dvd (isPowerOfTwo_pos (hugepageUnit_dvd hmb size).1)
    (hugepageUnit_dvd hmb size).2.1
  have hbelow := hs.below
  rw [hugepageAlignSize_eq hword]
  split_ifs
  · omega
  · omega

/-- **`hugepage_free_transparent`** -/
theorem hugepageFreeTransparent_pages (hpage : isPowerOfTwo page = true)
    (hmb : page ∣ hugepage2mbSize) (hsize : 0 < size)
    (hword : size + hugepage1gbSize - 1 < wordSize) (honpage : page ∣ ptr) (hptr : ptr ≠ 0)
    (hbelow : ptr < wordSize) :
    (hugepageFreeTransparent page m space ptr size).pages =
      space.pages \ pagesOver page ptr (alignUp (hugepageAlignSize size) page) := by
  obtain ⟨q, rfl⟩ := honpage
  unfold hugepageFreeTransparent
  rw [if_neg hptr]
  rw [Nat.mul_comm] at hbelow hptr ⊢
  exact memoryFreeAligned_pages hpage (Nat.pos_of_mul_pos_right (Nat.pos_of_ne_zero hptr)) hbelow
    (hugepageAlignSize_add_le hmb hsize hword) _

/-- The sizes that are taken for what they left mapped. -/
def TransparentExact (page : ℕ) (transparent : Bool) (size : ℕ) : Prop :=
  if size < hugepage2mbSize then
    if transparent then hugepage2mbSize < size + page else page ∣ size
  else
    let unit := if size < hugepage1gbSize then hugepage2mbSize else hugepage1gbSize
    let next := (size + unit - 1) / unit * unit
    if transparent then next < size + hugepage2mbSize
    else if page ∣ size then unit ∣ size
    else size + page ≤ next ∧ next < size + 2 * page

/-- Sizes below the smallest huge page are not rounded by `hugepage_free_transparent`. -/
theorem transparentKept_small_iff (hpage : isPowerOfTwo page = true)
    (hmb : page ∣ hugepage2mbSize) (hsize : 0 < size) (hsmall : size < hugepage2mbSize)
    (hword : size + hugepage1gbSize - 1 < wordSize) (transparent : Bool) :
    transparentKept page transparent size = alignUp (hugepageAlignSize size) page ↔
      TransparentExact page transparent size := by
  have hp := isPowerOfTwo_pos hpage
  have hle : page ≤ hugepage2mbSize := Nat.le_of_dvd (by decide) hmb
  have hgb : hugepage1gbSize = 512 * hugepage2mbSize := rfl
  have h2 : 0 < hugepage2mbSize := by decide
  have halign : hugepageAlignSize size = size := by
    unfold hugepageAlignSize
    rw [if_neg (by omega), if_neg (by omega)]
  unfold TransparentExact
  rw [if_pos hsmall, halign]
  unfold transparentKept
  cases transparent with
  | true =>
    have hone : alignUp size hugepage2mbSize = hugepage2mbSize :=
      (alignUp_eq_iff h2 (by omega) dvd_rfl).mpr (by omega)
    rw [if_pos rfl, if_pos rfl, hone, eq_comm, alignUp_eq_iff hp (by omega) hmb]
    omega
  | false =>
    simp only [Bool.false_eq_true, if_false]
    split_ifs with hd
    · exact iff_of_true (alignUp_of_dvd hp hd (by omega)).symm hd
    · exact iff_of_false (by omega) hd

/-- Larger sizes are rounded to one of the two huge pages. -/
theorem hugepageAlignSize_eq_alignUp (hbig : hugepage2mbSize ≤ size) {unit : ℕ}
    (hunit : (if size < hugepage1gbSize then hugepage2mbSize else hugepage1gbSize) = unit) :
    0 < unit ∧ hugepage2mbSize ∣ unit ∧ unit ≤ hugepage1gbSize ∧
      hugepageAlignSize size = alignUp size unit := by
  have hgb : hugepage1gbSize = 512 * hugepage2mbSize := rfl
  have h1 : 0 < hugepage1gbSize := by decide
  have h2 : 0 < hugepage2mbSize := by decide
  rw [← hunit]
  unfold hugepageAlignSize
  by_cases hlt : size < hugepage1gbSize
  · rw [if_pos hlt, if_neg (by omega), if_pos (by omega), hugepageRoundUp_eq h2]
    exact ⟨h2, dvd_rfl, by omega, rfl⟩
  · rw [if_neg hlt, if_pos (by omega), hugepageRoundUp_eq h1]
    exact ⟨h1, by decide, le_rfl, rfl⟩

/-- The bytes that `hugepage_free_transparent` takes away are those left mapped. -/
theorem transparentKept_eq_iff (hpage : isPowerOfTwo page = true)
    (hmb : page ∣ hugepage2mbSize) (hsize : 0 < size)
    (hword : size + hugepage1gbSize - 1 < wordSize) (transparent : Bool) :
    transparentKept page transparent size = alignUp (hugepageAlignSize size) page ↔
      TransparentExact page transparent size := by
  by_cases hsmall : size < hugepage2mbSize
  · exact transparentKept_small_iff hpage hmb hsize hsmall hword transparent
  have hp := isPowerOfTwo_pos hpage
  have h2 : 0 < hugepage2mbSize := by decide
  have hgb : hugepage1gbSize = 512 * hugepage2mbSize := rfl
  unfold TransparentExact
  rw [if_neg hsmall]
  generalize hunit : (if size < hugepage1gbSize then hugepage2mbSize else hugepage1gbSize) = unit
  obtain ⟨hpos, hdvd, hunit_le, halign⟩ :=
    hugepageAlignSize_eq_alignUp (Nat.le_of_not_lt hsmall) hunit
  have hlt : size + unit - 1 < wordSize := by omega
  have hnext : page ∣ alignUp size unit := (hmb.trans hdvd).trans (dvd_alignUp hpos hlt)
  have hself := alignUp_eq_self_iff hpos hlt
  have hge := le_alignUp hpos hlt
  have hup := alignUp_le hpos hlt
  have hword' : alignUp size unit + page ≤ wordSize :=
    halign ▸ hugepageAlignSize_add_le hmb hsize hword
  rw [halign, alignUp_of_dvd hp hnext (by omega)]
  dsimp only
  rw [← alignUp_eq hpos hlt]
  unfold transparentKept
  cases transparent with
  | true =>
    rw [if_pos rfl, if_pos rfl, alignUp_eq_iff h2 (by omega)
      (hdvd.trans (dvd_alignUp hpos hlt))]
    omega
  | false =>
    simp only [Bool.false_eq_true, if_false]
    split_ifs with hd
    · rw [eq_comm, hself]
    · have hlow : size ≤ alignUp size page := le_alignUp hp (by omega)
      have hhigh : alignUp size page ≤ size + page - 1 := alignUp_le hp (by omega)
      constructor
      · intro heq
        exact ⟨by omega, by omega⟩
      · rintro ⟨hfrom, hto⟩
        -- the size rounded up to pages is one page before
        have hone : alignUp size page = alignUp size unit - page :=
          (alignUp_eq_iff hp (by omega) (Nat.dvd_sub hnext dvd_rfl)).mpr (by omega)
        omega

end

/-- `hugepage_free_transparent` unmaps the pages that the allocation left mapped and no other, in
every address space that they are part of, after any change of the flags. -/
def TransparentFreesKept (page : ℕ) (m : HugepageManager) (space space' : AddressSpace)
    (ptr size : ℕ) : Prop :=
  ∀ (toggles : List HugepageToggle) (others : Finset ℕ) (munmaps : List (ℕ × ℕ)),
    Disjoint others (space'.pages \ space.pages) →
    (hugepageFreeTransparent page (toggles.foldl HugepageManager.toggle m)
      ⟨others ∪ space'.pages \ space.pages, munmaps⟩ ptr size).pages = others

/-- It does when it takes the size for the bytes left mapped. -/
theorem transparentFreesKept_iff {page size ptr len : ℕ} {space space' : AddressSpace}
    (m : HugepageManager) (hpage : isPowerOfTwo page = true) (hmb : page ∣ hugepage2mbSize)
    (hsize : 0 < size) (hword : size + hugepage1gbSize - 1 < wordSize)
    (hkeeps : KeepsMapped page space space' ptr len) :
    TransparentFreesKept page m space space' ptr size ↔
      len = alignUp (hugepageAlignSize size) page := by
  have hp := isPowerOfTwo_pos hpage
  have hroom := hugepageAlignSize_add_le hmb hsize hword
  have hfree : TransparentFreesKept page m space space' ptr size ↔
      ∀ others, Disjoint others (pagesOver page ptr len) → (others ∪ pagesOver page ptr len) \
        pagesOver page ptr (alignUp (hugepageAlignSize size) page) = others := by
    unfold TransparentFreesKept
    simp only [hkeeps.sdiff,
      hugepageFreeTransparent_pages hpage hmb hsize hword hkeeps.onPage hkeeps.nonNull hkeeps.below]
    exact ⟨fun hall others => hall [] others [], fun hall _ others _ => hall others⟩
  rw [hfree, union_sdiff_eq_iff]
  exact pagesOver_eq_iff hp hkeeps.onPage hkeeps.whole (dvd_alignUp hp (by omega))

/-- **Transparent huge pages**: the free is exact for the sizes of `TransparentExact`. -/
theorem transparent_free_exact_iff {page size raw ptr : ℕ} {space space' : AddressSpace}
    {m : HugepageManager} (hpage : isPowerOfTwo page = true)
    (hmb : page ∣ hugepage2mbSize) (hsize : 0 < size)
    (hword : size + hugepage1gbSize - 1 < wordSize)
    (hraw : Maps page wordSize space.pages raw
      (alignUp (addW (transparentRequest page m.transparent size).1
        (transparentRequest page m.transparent size).2) page))
    (h : hugepageAllocTransparent page m space (some raw) size = (space', some ptr)) :
    TransparentFreesKept page m space space' ptr size ↔
      TransparentExact page m.transparent size :=
  (transparentFreesKept_iff m hpage hmb hsize hword
    (hugepageAllocTransparent_spec hpage hmb hword hraw h)).trans
    (transparentKept_eq_iff hpage hmb hsize hword m.transparent)

/-- The kernel maps at 2 MiB. -/
theorem hugepageAllocTransparent_at_2mb (size len : ℕ) (hlen : alignUp (addW
      (transparentRequest 4096 (hugepageInit gHugepageManager).transparent size).1
      (transparentRequest 4096 (hugepageInit gHugepageManager).transparent size).2) 4096 = len)
    (hpos : 0 < len) (hroom : 2097152 + len ≤ wordSize) :
    Maps 4096 wordSize ∅ 2097152 (alignUp (addW
      (transparentRequest 4096 (hugepageInit gHugepageManager).transparent size).1
      (transparentRequest 4096 (hugepageInit gHugepageManager).transparent size).2) 4096) ∧
      ∃ space', hugepageAllocTransparent 4096 (hugepageInit gHugepageManager) ⟨∅, []⟩
        (some 2097152) size = (space', some 2097152) := by
  refine ⟨?_, ?_⟩
  · rw [hlen]
    exact ⟨hpos, by decide, by decide, hroom, Finset.disjoint_empty_left _⟩
  · rw [hugepageAllocTransparent_eq]
    have halign : alignUp 2097152 hugepage2mbSize = 2097152 := by decide
    have hsome := memoryAllocAligned_some 4096 ⟨∅, []⟩ 2097152
      (hugepageRoundUp size hugepage2mbSize) hugepage2mbSize
    rw [halign] at hsome
    exact hsome

/-- 2 MiB: the pages mapped are those unmapped. -/
theorem transparent_free_exact_2mb : ∃ space',
    TransparentFreesKept 4096 (hugepageInit gHugepageManager) ⟨∅, []⟩ space' 2097152 2097152 := by
  obtain ⟨hmaps, space', hrun⟩ := hugepageAllocTransparent_at_2mb 2097152 4194304
    (by decide) (by decide) (by decide)
  exact ⟨space', (transparent_free_exact_iff (by decide) (by decide) (by decide) (by decide) hmaps
    hrun).mpr (by unfold TransparentExact; decide)⟩

/-- A byte more than 1 GiB: 1026 MiB are mapped, and 2 GiB unmapped, whatever lies there. -/
theorem transparent_free_takes_others : ∃ raw space' ptr,
    Maps 4096 wordSize ∅ raw (alignUp (addW
      (transparentRequest 4096 (hugepageInit gHugepageManager).transparent 1073741825).1
      (transparentRequest 4096 (hugepageInit gHugepageManager).transparent 1073741825).2) 4096) ∧
    hugepageAllocTransparent 4096 (hugepageInit gHugepageManager) ⟨∅, []⟩ (some raw) 1073741825 =
      (space', some ptr) ∧
    ¬ TransparentFreesKept 4096 (hugepageInit gHugepageManager) ⟨∅, []⟩ space' ptr 1073741825 := by
  obtain ⟨hmaps, space', hrun⟩ := hugepageAllocTransparent_at_2mb 1073741825 1077936128
    (by decide) (by decide) (by decide)
  refine ⟨_, space', _, hmaps, hrun, ?_⟩
  have hkeeps := hugepageAllocTransparent_spec (by decide) (by decide) (by decide) hmaps hrun
  rw [transparentFreesKept_iff _ (by decide) (by decide) (by decide) (by decide) hkeeps]
  decide

end Nomalloc
