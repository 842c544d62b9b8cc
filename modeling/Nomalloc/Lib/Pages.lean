import Mathlib.Tactic
import Mathlib.Order.Interval.Finset.Nat

/-!
# Mapped pages

An address space is the finite set of its mapped pages, by number: the page of the address `x` is
`x / page`.

* `pagesOver page addr len`   the pages that `[addr, addr + len)` overlaps;
* `mmap`, `munmap`            `munmap` of an address that no page starts at fails, without effect;
* `Maps`                      what `mmap` may answer.

`pagesOver_aligned` gives a range that starts at a page as an interval of page numbers; `trim` is
what is left of a mapping after its two ends are unmapped, and `union_sdiff_eq_iff` says when a
mapping is unmapped and nothing else.
-/

namespace Pages

/-- The pages that the bytes `[addr, addr + len)` overlap. -/
def pagesOver (page addr len : ℕ) : Finset ℕ :=
  if len = 0 then ∅ else Finset.Ico (addr / page) ((addr + len - 1) / page + 1)

/-- A mapping of `len` bytes at `addr`. -/
def mmap (page : ℕ) (mapped : Finset ℕ) (addr len : ℕ) : Finset ℕ := mapped ∪ pagesOver page addr len

def munmap (page : ℕ) (mapped : Finset ℕ) (addr len : ℕ) : Finset ℕ :=
  if addr % page = 0 then mapped \ pagesOver page addr len else mapped

/-- `mmap` of `len` bytes answers `addr`, in a space of addresses below `top`: a length of zero is
turned down, and the pages are whole, fresh and not at NULL. -/
structure Maps (page top : ℕ) (mapped : Finset ℕ) (addr len : ℕ) : Prop where
  pos : 0 < len
  aligned : page ∣ addr
  nonNull : addr ≠ 0
  below : addr + len ≤ top
  fresh : Disjoint mapped (pagesOver page addr len)

section
variable {page addr len : ℕ} {mapped : Finset ℕ}

theorem mem_pagesOver (hp : 0 < page) {k : ℕ} :
    k ∈ pagesOver page addr len ↔ ∃ x, addr ≤ x ∧ x < addr + len ∧ x / page = k := by
  unfold pagesOver
  by_cases hl : len = 0
  · rw [if_pos hl]
    refine iff_of_false (Finset.notMem_empty k) ?_
    rintro ⟨x, h1, h2, -⟩
    omega
  · rw [if_neg hl, Finset.mem_Ico, Nat.lt_succ_iff]
    constructor
    · rintro ⟨h1, h2⟩
      -- the first byte of the page, or of the range if that comes later
      refine ⟨max addr (k * page), le_max_left _ _, ?_, ?_⟩
      · have hk : k * page ≤ addr + len - 1 := (Nat.le_div_iff_mul_le hp).mp h2
        exact max_lt (by omega) (by omega)
      · rcases le_total addr (k * page) with h | h
        · rw [max_eq_right h, Nat.mul_div_cancel _ hp]
        · rw [max_eq_left h]
          exact le_antisymm h1 ((Nat.le_div_iff_mul_le hp).mpr h)
    · rintro ⟨x, h1, h2, rfl⟩
      exact ⟨Nat.div_le_div_right h1, Nat.div_le_div_right (by omega)⟩

/-- A range that starts at a page, whose length is `n` pages or the last of them in part. -/
theorem pagesOver_aligned (hp : 0 < page) (a : ℕ) {n : ℕ} (hlo : n * page < len + page)
    (hhi : len ≤ n * page) : pagesOver page (a * page) len = Finset.Ico a (a + n) := by
  unfold pagesOver
  rcases Nat.eq_zero_or_pos len with hl | hl
  · have hn : n = 0 := by
      have : n * page < 1 * page := by omega
      exact Nat.lt_one_iff.mp (Nat.lt_of_mul_lt_mul_right this)
    rw [if_pos hl, hn, Nat.add_zero, Finset.Ico_self]
  · rw [if_neg (by omega), Nat.mul_div_cancel _ hp]
    have hend : (a * page + len - 1) / page + 1 = a + n := by
      have hn : 0 < n := by
        rcases Nat.eq_zero_or_pos n with h | h
        · rw [h] at hhi
          omega
        · exact h
      rw [show a * page + len - 1 = len - 1 + page * a by rw [Nat.mul_comm page]; omega,
        Nat.add_mul_div_left _ _ hp]
      have hdiv : (len - 1) / page = n - 1 := by
        refine Nat.div_eq_of_lt_le ?_ ?_
        · rw [Nat.sub_mul, Nat.one_mul]
          omega
        · rw [Nat.sub_add_cancel hn]
          omega
      omega
    rw [hend]

/-- A whole number of pages that starts at a page. -/
theorem pagesOver_mul (hp : 0 < page) (a n : ℕ) :
    pagesOver page (a * page) (n * page) = Finset.Ico a (a + n) :=
  pagesOver_aligned hp a (Nat.lt_add_of_pos_right hp) le_rfl

theorem munmap_mul (hp : 0 < page) (mapped : Finset ℕ) (a n : ℕ) :
    munmap page mapped (a * page) (n * page) = mapped \ Finset.Ico a (a + n) := by
  unfold munmap
  rw [if_pos (Nat.mul_mod_left a page), pagesOver_mul hp]

/-- A mapping loses its two ends. -/
theorem trim {a b c d : ℕ} (hfresh : Disjoint mapped (Finset.Ico a d)) (hab : a ≤ b) (hbc : b ≤ c)
    (hcd : c ≤ d) :
    ((mapped ∪ Finset.Ico a d) \ Finset.Ico a b) \ Finset.Ico c d = mapped ∪ Finset.Ico b c := by
  ext x
  have hx : x ∈ mapped → ¬ (a ≤ x ∧ x < d) := fun hin hr =>
    Finset.disjoint_left.mp hfresh hin (Finset.mem_Ico.mpr hr)
  simp only [Finset.mem_sdiff, Finset.mem_union, Finset.mem_Ico]
  constructor
  · rintro ⟨⟨hin | hin, h1⟩, h2⟩
    · exact Or.inl hin
    · exact Or.inr (by omega)
  · rintro (hin | hin)
    · have := hx hin
      exact ⟨⟨Or.inl hin, by omega⟩, by omega⟩
    · exact ⟨⟨Or.inr (by omega), by omega⟩, by omega⟩

/-- Where only pages of the mapping are unmapped, the others are left alone in any case. -/
theorem union_sdiff_eq_iff_of_subset {others kept freed : Finset ℕ} (hdis : Disjoint others kept)
    (hsub : freed ⊆ kept) : (others ∪ kept) \ freed = others ↔ kept = freed := by
  constructor
  · intro h
    refine Finset.Subset.antisymm (fun x hx => ?_) hsub
    by_contra hnot
    have hin : x ∈ (others ∪ kept) \ freed :=
      Finset.mem_sdiff.mpr ⟨Finset.mem_union_right _ hx, hnot⟩
    rw [h] at hin
    exact Finset.disjoint_left.mp hdis hin hx
  · rintro rfl
    rw [Finset.union_sdiff_right]
    exact Finset.sdiff_eq_self_of_disjoint hdis

/-- A mapping goes, and nothing else does, in every address space exactly when its own pages are
those unmapped. -/
theorem union_sdiff_eq_iff {kept freed : Finset ℕ} :
    (∀ others, Disjoint others kept → (others ∪ kept) \ freed = others) ↔ kept = freed := by
  constructor
  · intro h
    have hkept : kept \ freed = ∅ := by simpa using h ∅ (Finset.disjoint_empty_left kept)
    refine Finset.Subset.antisymm (Finset.sdiff_eq_empty_iff_subset.mp hkept) fun x hx => ?_
    -- a page that is freed and not kept could be another's
    by_contra hnot
    have hother := h {x} (Finset.disjoint_singleton_left.mpr hnot)
    have hin : x ∈ ({x} ∪ kept) \ freed := by
      rw [hother]
      exact Finset.mem_singleton_self x
    exact (Finset.mem_sdiff.mp hin).2 hx
  · rintro rfl others hdis
    exact (union_sdiff_eq_iff_of_subset hdis (Finset.Subset.refl _)).mpr rfl

/-- Ranges of whole pages that start together are the same pages when they have the same length. -/
theorem pagesOver_eq_iff (hp : 0 < page) (haddr : page ∣ addr) {len' : ℕ} (hlen : page ∣ len)
    (hlen' : page ∣ len') : pagesOver page addr len = pagesOver page addr len' ↔ len = len' := by
  refine ⟨fun h => ?_, fun h => by rw [h]⟩
  obtain ⟨a, rfl⟩ := haddr
  obtain ⟨m, rfl⟩ := hlen
  obtain ⟨n, rfl⟩ := hlen'
  rw [Nat.mul_comm page, Nat.mul_comm page, Nat.mul_comm page, pagesOver_mul hp,
    pagesOver_mul hp] at h
  have hcard := congrArg Finset.card h
  rw [Nat.card_Ico, Nat.card_Ico, Nat.add_sub_cancel_left, Nat.add_sub_cancel_left] at hcard
  rw [hcard]

/-- A longer range that starts at the same page covers the shorter one. -/
theorem pagesOver_mono (hp : 0 < page) {len' : ℕ} (h : len ≤ len') :
    pagesOver page addr len ⊆ pagesOver page addr len' := fun k hk => by
  obtain ⟨x, hx, hlt, hdiv⟩ := (mem_pagesOver hp).mp hk
  exact (mem_pagesOver hp).mpr ⟨x, hx, by omega, hdiv⟩

end

end Pages
