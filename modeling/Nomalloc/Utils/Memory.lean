import Nomalloc.Lib.Pages
import Nomalloc.Utils.Math

/-!
# `utils/memory.h`: aligned memory from the kernel

`memory_alloc_aligned` maps more than is asked for and unmaps the two ends.  The tail starts at the
end of the block; where no page starts there, `munmap` fails, and the tail stays mapped.

* `memoryAllocAligned`, `memoryFreeAligned`
* `memoryKept`                what the allocation leaves mapped at the block, in bytes;
* `memoryAllocAligned_spec`   it does;
* `aligned_round_trip_iff`    the two calls leave the pages as they were exactly when the size is a
                              whole number of pages, or the mapping had no page to spare.
-/

namespace Nomalloc

open Pages

/-- The mapped pages, and the calls of `munmap` that were made. -/
@[ext] structure AddressSpace where
  pages : Finset ℕ
  munmaps : List (ℕ × ℕ)
deriving DecidableEq

namespace AddressSpace

def mmap (space : AddressSpace) (page addr len : ℕ) : AddressSpace :=
  { space with pages := Pages.mmap page space.pages addr len }

def munmap (space : AddressSpace) (page addr len : ℕ) : AddressSpace where
  pages := Pages.munmap page space.pages addr len
  munmaps := space.munmaps ++ [(addr, len)]

end AddressSpace

/-- `align_down` -/
def alignDown (val alignment : ℕ) : ℕ := if alignment = 0 then val else val / alignment * alignment

/-- `memory_alloc_aligned`; `raw` is what `mmap` answers. -/
def memoryAllocAligned (page : ℕ) (space : AddressSpace) (raw : Option ℕ) (size alignment : ℕ) :
    AddressSpace × Option ℕ :=
  let totalSize := addW size alignment
  let alignedSize := alignUp totalSize page
  match raw with
  | none => (space, none)
  | some addr =>
    let space := space.mmap page addr alignedSize
    let alignedAddr := alignUp addr alignment
    let offset := subW alignedAddr addr
    let space := if 0 < offset then space.munmap page addr offset else space
    let tailSize := subW (subW alignedSize offset) size
    let space :=
      if 0 < tailSize then space.munmap page (addW alignedAddr size) tailSize else space
    (space, some alignedAddr)

/-- `memory_free_aligned`; the alignment is not looked at. -/
def memoryFreeAligned (page : ℕ) (space : AddressSpace) (ptr size _alignment : ℕ) : AddressSpace :=
  if ptr = 0 then space
  else
    let pageAlignedAddr := alignDown ptr page
    let headSize := subW ptr pageAlignedAddr
    let tailSize := subW (alignUp size page) size
    let totalSize := addW (addW headSize size) tailSize
    space.munmap page pageAlignedAddr (alignUp totalSize page)

/-- What stays mapped at the block when `offset` bytes are unmapped before it. -/
def memoryKept (page size alignment offset : ℕ) : ℕ :=
  if page ∣ size then size else alignUp (size + alignment) page - offset

/-- An allocation of `size` bytes at `ptr`, `raw` being what `mmap` answered. -/
structure MemoryAllocated (page : ℕ) (space space' : AddressSpace) (raw size alignment ptr : ℕ) :
    Prop where
  onPage : page ∣ ptr
  aligned : alignment ∣ ptr
  place : raw ≤ ptr ∧ ptr < raw + alignment
  /-- the pages kept are whole, and were not mapped -/
  kept : page ∣ memoryKept page size alignment (ptr - raw) ∧
    size ≤ memoryKept page size alignment (ptr - raw)
  fresh : Disjoint space.pages (pagesOver page ptr (memoryKept page size alignment (ptr - raw)))
  pages : space'.pages =
    space.pages ∪ pagesOver page ptr (memoryKept page size alignment (ptr - raw))

section
variable {page size alignment raw : ℕ} {space : AddressSpace}

/-- The first aligned address of a mapping is at a page. -/
theorem alignUp_on_page (hpage : isPowerOfTwo page = true) (hal : isPowerOfTwo alignment = true)
    (hraw : page ∣ raw) (hlt : raw + alignment - 1 < wordSize) :
    page ∣ alignUp raw alignment ∧ (alignment ∣ page → alignUp raw alignment = raw) := by
  have hpos := isPowerOfTwo_pos hal
  have hself : alignment ∣ page → alignUp raw alignment = raw := fun hd =>
    alignUp_of_dvd hpos (hd.trans hraw) hlt
  refine ⟨?_, hself⟩
  rcases dvd_or_dvd_of_isPowerOfTwo hpage hal with hd | hd
  · exact hd.trans (dvd_alignUp hpos hlt)
  · rw [hself hd]
    exact hraw

/-- The sizes that `memory_alloc_aligned` computes. -/
structure AlignedSizes (page raw size alignment : ℕ) : Prop where
  pos : 0 < alignment ∧ 0 < raw
  total : addW size alignment = size + alignment
  ptr_le : alignUp raw alignment ≤ raw + alignment - 1
  le_ptr : raw ≤ alignUp raw alignment
  room : size + alignment ≤ alignUp (size + alignment) page
  below : raw + alignUp (size + alignment) page ≤ wordSize
  onPage : page ∣ alignUp (size + alignment) page

theorem alignedSizes (hpage : isPowerOfTwo page = true) (hal : isPowerOfTwo alignment = true)
    (hword : size + alignment + page ≤ wordSize) (hpos : 0 < raw)
    (hraw : raw + alignUp (size + alignment) page ≤ wordSize) :
    AlignedSizes page raw size alignment := by
  have hp := isPowerOfTwo_pos hpage
  have ha := isPowerOfTwo_pos hal
  have hroom : size + alignment ≤ alignUp (size + alignment) page := le_alignUp hp (by omega)
  exact ⟨⟨ha, hpos⟩, addW_eq (by omega), alignUp_le ha (by omega), le_alignUp ha (by omega), hroom,
    hraw, dvd_alignUp hp (by omega)⟩

/-- The pages of a new mapping, once those before the aligned address are unmapped. -/
theorem mmap_head_pages {a m o : ℕ} (hp : 0 < page) (space : AddressSpace) :
    (if 0 < o * page then (space.mmap page (a * page) (m * page)).munmap page (a * page)
      (o * page) else space.mmap page (a * page) (m * page)).pages =
      (space.pages ∪ Finset.Ico a (a + m)) \ Finset.Ico a (a + o) := by
  have hmap : (space.mmap page (a * page) (m * page)).pages =
      space.pages ∪ Finset.Ico a (a + m) := by
    show Pages.mmap page space.pages (a * page) (m * page) = _
    unfold Pages.mmap
    rw [pagesOver_mul hp]
  split_ifs with ho
  · show Pages.munmap page (space.mmap page (a * page) (m * page)).pages (a * page) (o * page) = _
    rw [munmap_mul hp, hmap]
  · have ho' : o = 0 := by
      rcases Nat.eq_zero_or_pos o with h | h
      · exact h
      · exact absurd (Nat.mul_pos h hp) ho
    rw [hmap, ho', Nat.add_zero, Finset.Ico_self, Finset.sdiff_empty]

/-- The calls of `munmap` cut a mapping of `m` pages to the `k` pages from the page `a + o` on. -/
theorem memoryAllocAligned_pages {a m o : ℕ} (hpage : isPowerOfTwo page = true)
    (hs : AlignedSizes page (a * page) size alignment)
    (hm : alignUp (size + alignment) page = m * page)
    (hptr : alignUp (a * page) alignment = (a + o) * page)
    (hfresh : Disjoint space.pages (pagesOver page (a * page) (m * page))) :
    ∃ space' k, memoryAllocAligned page space (some (a * page)) size alignment =
        (space', some ((a + o) * page)) ∧
      memoryKept page size alignment (o * page) = k * page ∧ size ≤ k * page ∧ o + k ≤ m ∧
      space'.pages = space.pages ∪ Finset.Ico (a + o) (a + o + k) := by
  have hp := isPowerOfTwo_pos hpage
  obtain ⟨⟨ha, hpos⟩, htotal, hle, hge, hroom, hbelow, -⟩ := hs
  rw [hm] at hroom hbelow
  rw [hptr] at hle hge
  have hsplit : (a + o) * page = a * page + o * page := Nat.add_mul ..
  have hoff : subW ((a + o) * page) (a * page) = o * page := by
    rw [subW_eq (by omega) (by omega), hsplit, Nat.add_sub_cancel_left]
  have htail : subW (subW (m * page) (o * page)) size = m * page - o * page - size := by
    have hinner : subW (m * page) (o * page) = m * page - o * page :=
      subW_eq (by omega) (by omega)
    rw [hinner]
    exact subW_eq (by omega) (by omega)
  have htail_pos : 0 < m * page - o * page - size := by omega
  have hend : addW ((a + o) * page) size = (a + o) * page + size := addW_eq (by omega)
  have hmo : o ≤ m := Nat.le_of_mul_le_mul_right (by omega : o * page ≤ m * page) hp
  have hfresh' : Disjoint space.pages (Finset.Ico a (a + m)) := by
    rwa [pagesOver_mul hp] at hfresh
  -- before the tail is unmapped
  have hhead := mmap_head_pages (a := a) (m := m) (o := o) hp space
  unfold memoryAllocAligned
  dsimp only
  rw [htotal, hm, hptr, hoff, htail, if_pos htail_pos, hend]
  by_cases hd : page ∣ size
  · obtain ⟨k, rfl⟩ := hd
    have hk : o + k ≤ m := by
      refine Nat.le_of_mul_le_mul_right ?_ hp
      rw [Nat.add_mul, Nat.mul_comm k]
      omega
    refine ⟨_, k, rfl, ?_, (Nat.mul_comm page k).le, hk, ?_⟩
    · unfold memoryKept
      rw [if_pos (Nat.dvd_mul_right page k), Nat.mul_comm]
    · have he : (a + o) * page + page * k = (a + o + k) * page := by ring
      have hlen : m * page - o * page - page * k = (m - o - k) * page := by
        rw [Nat.sub_mul, Nat.sub_mul, Nat.mul_comm page k]
      show Pages.munmap page _ ((a + o) * page + page * k) _ = _
      rw [he, hlen, munmap_mul hp, hhead, show a + o + k + (m - o - k) = a + m by omega]
      exact trim hfresh' (by omega) (by omega) (by omega)
  · -- no page starts at the tail
    refine ⟨_, m - o, rfl, ?_, ?_, by omega, ?_⟩
    · unfold memoryKept
      rw [if_neg hd, hm, Nat.sub_mul]
    · rw [Nat.sub_mul]
      omega
    · have hmod : ((a + o) * page + size) % page ≠ 0 := by
        rw [Nat.add_comm, Nat.add_mul_mod_self_right]
        exact fun h0 => hd (Nat.dvd_of_mod_eq_zero h0)
      show Pages.munmap page _ ((a + o) * page + size) _ = _
      unfold Pages.munmap
      rw [if_neg hmod, hhead, show a + o + (m - o) = a + m by omega]
      have htrim := trim hfresh' (b := a + o) (c := a + m) (by omega) (by omega) le_rfl
      rwa [Finset.Ico_self, Finset.sdiff_empty] at htrim

theorem memoryAllocAligned_some (page : ℕ) (space : AddressSpace) (raw size alignment : ℕ) :
    ∃ space', memoryAllocAligned page space (some raw) size alignment =
      (space', some (alignUp raw alignment)) := by
  unfold memoryAllocAligned
  exact ⟨_, rfl⟩

/-- **`memory_alloc_aligned`**, when the kernel maps. -/
theorem memoryAllocAligned_spec (hpage : isPowerOfTwo page = true)
    (hal : isPowerOfTwo alignment = true) (hword : size + alignment + page ≤ wordSize)
    (hraw : Maps page wordSize space.pages raw (alignUp (size + alignment) page)) :
    ∃ space', memoryAllocAligned page space (some raw) size alignment =
        (space', some (alignUp raw alignment)) ∧
      MemoryAllocated page space space' raw size alignment (alignUp raw alignment) := by
  have hp := isPowerOfTwo_pos hpage
  have ha := isPowerOfTwo_pos hal
  have hs := alignedSizes hpage hal hword (Nat.pos_of_ne_zero hraw.nonNull) hraw.below
  have hlt : raw + alignment - 1 < wordSize := by
    have hroom := hs.room
    have hbelow := hs.below
    omega
  have hdvd := (alignUp_on_page hpage hal hraw.aligned hlt).1
  obtain ⟨a, rfl⟩ := hraw.aligned
  obtain ⟨m, hm⟩ := hs.onPage
  obtain ⟨b, hb⟩ := hdvd
  have hab : a ≤ b := by
    refine Nat.le_of_mul_le_mul_left ?_ hp
    rw [← hb]
    exact hs.le_ptr
  obtain ⟨o, rfl⟩ := Nat.exists_eq_add_of_le hab
  have hfresh := hraw.fresh
  rw [hm] at hfresh
  simp only [Nat.mul_comm page] at hs hm hb hlt hfresh ⊢
  obtain ⟨space', k, he, hkept, hsize, hk, hpages⟩ :=
    memoryAllocAligned_pages hpage hs hm hb hfresh
  have hsub : (a + o) * page - a * page = o * page := by
    rw [Nat.add_mul, Nat.add_sub_cancel_left]
  refine ⟨space', by rw [hb]; exact he, ?_⟩
  have hplace : a * page ≤ (a + o) * page ∧ (a + o) * page < a * page + alignment := by
    have h1 := hs.le_ptr
    have h2 := hs.ptr_le
    rw [hb] at h1 h2
    exact ⟨h1, by omega⟩
  rw [hb]
  refine ⟨Nat.dvd_mul_left page _, hb ▸ dvd_alignUp ha hlt, hplace, ?_, ?_, ?_⟩
  · rw [hsub, hkept]
    exact ⟨Nat.dvd_mul_left page k, hsize⟩
  · rw [hsub, hkept, pagesOver_mul hp]
    rw [pagesOver_mul hp] at hfresh
    exact hfresh.mono_right (Finset.Ico_subset_Ico (by omega) (by omega))
  · rw [hsub, hkept, pagesOver_mul hp]
    exact hpages

/-- **`memory_free_aligned`** unmaps the pages of the block. -/
theorem memoryFreeAligned_pages {q : ℕ} (hpage : isPowerOfTwo page = true) (hq : 0 < q)
    (hptr : q * page < wordSize) (hword : size + page ≤ wordSize) (alignment : ℕ) :
    (memoryFreeAligned page space (q * page) size alignment).pages =
      space.pages \ pagesOver page (q * page) (alignUp size page) := by
  have hp := isPowerOfTwo_pos hpage
  have hup : size ≤ alignUp size page := le_alignUp hp (by omega)
  have hlt : alignUp size page < wordSize :=
    (alignUp_le hp (by omega)).trans_lt (by omega)
  have hmul : page ∣ alignUp size page := dvd_alignUp hp (by omega)
  have hdown : alignDown (q * page) page = q * page := by
    unfold alignDown
    rw [if_neg hp.ne', Nat.mul_div_cancel _ hp]
  have hhead : subW (q * page) (q * page) = 0 := by
    rw [subW_eq le_rfl hptr, Nat.sub_self]
  have hhead_add : addW 0 size = size := by
    rw [addW_eq (by omega), Nat.zero_add]
  have htail : subW (alignUp size page) size = alignUp size page - size := subW_eq hup hlt
  have htotal : addW size (alignUp size page - size) = alignUp size page := by
    rw [addW_eq (by omega), Nat.add_sub_cancel' hup]
  have hagain : alignUp (alignUp size page) page = alignUp size page := by
    have hone : page ≤ q * page := Nat.le_mul_of_pos_left page hq
    have := add_le_wordSize_of_dvd hpage (by omega) hmul hlt
    exact alignUp_of_dvd hp hmul (by omega)
  unfold memoryFreeAligned
  rw [if_neg (Nat.mul_pos hq hp).ne']
  dsimp only
  rw [hdown, hhead, hhead_add, htail, htotal, hagain]
  show Pages.munmap page space.pages (q * page) _ = _
  unfold Pages.munmap
  rw [if_pos (Nat.mul_mod_left q page)]

/-- What stays mapped is what the free takes away, or more. -/
theorem memoryKept_eq_iff {ptr : ℕ} (hpage : isPowerOfTwo page = true)
    (hal : isPowerOfTwo alignment = true) (hword : size + alignment + page ≤ wordSize)
    (hplace : raw ≤ ptr ∧ ptr < raw + alignment) (hself : alignment ∣ page → ptr = raw) :
    memoryKept page size alignment (ptr - raw) = alignUp size page ↔
      page ∣ size ∨ size + alignment ≤ alignUp size page := by
  have hp := isPowerOfTwo_pos hpage
  unfold memoryKept
  by_cases hd : page ∣ size
  · rw [if_pos hd, alignUp_of_dvd hp hd (by omega)]
    exact iff_of_true rfl (Or.inl hd)
  rw [if_neg hd]
  have hroom : size + alignment ≤ alignUp (size + alignment) page := le_alignUp hp (by omega)
  have hmul : page ∣ alignUp (size + alignment) page := dvd_alignUp hp (by omega)
  have hle : alignUp size page ≤ alignUp (size + alignment) page :=
    alignUp_least hp (by omega) (by omega) hmul
  rcases dvd_or_dvd_of_isPowerOfTwo hal hpage with hdiv | hdiv
  · -- an alignment below a page: nothing is cut off before the block
    rw [hself hdiv, Nat.sub_self, Nat.sub_zero]
    constructor
    · intro h
      exact Or.inr (h ▸ hroom)
    · rintro (h | h)
      · exact absurd h hd
      · exact Nat.le_antisymm (alignUp_least hp (by omega) h (dvd_alignUp hp (by omega))) hle
  · -- from a page on: the mapping has a page to spare that the free does not reach
    have hspare : alignUp size page ≤ alignUp (size + alignment) page - alignment :=
      alignUp_least hp (by omega) (by omega) (Nat.dvd_sub hmul hdiv)
    have hone : page ≤ alignment := Nat.le_of_dvd (isPowerOfTwo_pos hal) hdiv
    have hless : alignUp size page ≤ size + page - 1 := alignUp_le hp (by omega)
    refine iff_of_false (by omega) ?_
    rintro (h | h)
    · exact hd h
    · omega

end

/-- A block from `memory_alloc_aligned` is aligned, its bytes are mapped, and `memory_free_aligned`
leaves the pages as they were before. -/
def AlignedRoundTrip (page : ℕ) (space : AddressSpace) (raw size alignment : ℕ) : Prop :=
  ∃ space' ptr, memoryAllocAligned page space (some raw) size alignment = (space', some ptr) ∧
    alignment ∣ ptr ∧ pagesOver page ptr size ⊆ space'.pages ∧
    (memoryFreeAligned page space' ptr size alignment).pages = space.pages

/-- **The round trip**: the pages are as before exactly when the size is a whole number of pages, or
the alignment fits in what rounding the size up to pages adds. -/
theorem aligned_round_trip_iff {page alignment size raw : ℕ} {space : AddressSpace}
    (hpage : isPowerOfTwo page = true) (hal : isPowerOfTwo alignment = true) (hsize : 0 < size)
    (hword : size + alignment + page < wordSize)
    (hraw : Maps page wordSize space.pages raw (alignUp (size + alignment) page)) :
    AlignedRoundTrip page space raw size alignment ↔
      page ∣ size ∨ size + alignment ≤ alignUp size page := by
  have hp := isPowerOfTwo_pos hpage
  have ha := isPowerOfTwo_pos hal
  obtain ⟨space', he, hm⟩ := memoryAllocAligned_spec hpage hal hword.le hraw
  have hlt : raw + alignment - 1 < wordSize := by
    have hroom : size + alignment ≤ alignUp (size + alignment) page := le_alignUp hp (by omega)
    have := hraw.below
    omega
  have hself := (alignUp_on_page hpage hal hraw.aligned hlt).2
  have hkept := memoryKept_eq_iff hpage hal hword.le hm.place hself
  generalize hptr : alignUp raw alignment = ptr at *
  obtain ⟨q, rfl⟩ : page ∣ ptr := hm.onPage
  have hq : 0 < q := by
    have hle := hm.place.1
    rcases Nat.eq_zero_or_pos q with h0 | h0
    · rw [h0] at hle
      exact absurd (Nat.le_zero.mp hle) hraw.nonNull
    · exact h0
  have hbelow : page * q < wordSize := by
    have := hm.place.2
    omega
  have hfree : (memoryFreeAligned page space' (page * q) size alignment).pages =
      space'.pages \ pagesOver page (page * q) (alignUp size page) := by
    rw [Nat.mul_comm] at hbelow ⊢
    exact memoryFreeAligned_pages hpage hq hbelow (by omega) alignment
  obtain ⟨hmul, hroom⟩ := hm.kept
  have hmapped : pagesOver page (page * q) size ⊆ space'.pages := by
    rw [hm.pages]
    exact (pagesOver_mono hp hroom).trans Finset.subset_union_right
  -- the pages that the free takes are among those kept
  have hsub : pagesOver page (page * q) (alignUp size page) ⊆
      pagesOver page (page * q) (memoryKept page size alignment (page * q - raw)) :=
    pagesOver_mono hp (alignUp_least hp (by omega) hroom hmul)
  have hback : (memoryFreeAligned page space' (page * q) size alignment).pages = space.pages ↔
      memoryKept page size alignment (page * q - raw) = alignUp size page := by
    rw [hfree, hm.pages, union_sdiff_eq_iff_of_subset hm.fresh hsub]
    exact pagesOver_eq_iff hp (Nat.dvd_mul_right page q) hmul (dvd_alignUp hp (by omega))
  rw [← hkept, ← hback]
  constructor
  · rintro ⟨space₁, ptr₁, he₁, -, -, hfreed⟩
    rw [he] at he₁
    cases he₁
    exact hfreed
  · exact fun hfreed => ⟨space', _, he, hm.aligned, hmapped, hfreed⟩

/-- 4096 bytes on 4096-byte pages: the two pages mapped at 8192 are given back. -/
theorem aligned_round_trip_page : AlignedRoundTrip 4096 ⟨∅, []⟩ 8192 4096 4096 :=
  (aligned_round_trip_iff (by decide) (by decide) (by decide) (by decide)
    ⟨by decide, by decide, by decide, by decide, Finset.disjoint_empty_left _⟩).mpr
    (Or.inl (dvd_refl 4096))

/-- 100 bytes: the second of the two pages stays mapped. -/
theorem aligned_round_trip_leaks :
    Maps 4096 wordSize ∅ 8192 (alignUp (100 + 4096) 4096) ∧
      ¬ AlignedRoundTrip 4096 ⟨∅, []⟩ 8192 100 4096 := by
  refine ⟨⟨by decide, by decide, by decide, by decide, Finset.disjoint_empty_left _⟩, ?_⟩
  rintro ⟨space', ptr, he, -, -, hfree⟩
  have hrun : memoryAllocAligned 4096 ⟨∅, []⟩ (some 8192) 100 4096 =
      (⟨{2, 3}, [(8292, 8092)]⟩, some 8192) := by
    decide +kernel
  rw [hrun] at he
  cases he
  revert hfree
  decide +kernel

end Nomalloc
