import Mathlib.Tactic
import Nomalloc.Core.SizeClass
import Nomalloc.Lib.LeastAbove

/-!
# The size-class maps as an adjunction and as a rounding

`size_to_class` finds the first class that is as large as the request.  Were the table of small
classes full, it would be adjoint to `class_to_size`; but class 29, which has no initialiser, has
size zero.  `size_class_align` rounds a request up, in the table or to pages.

* `isLeast_sizeToClass`     the class found is the first that fits, of those with an initialiser;
* `size_class_maps_iff`     the maps are adjoint at a class exactly when it is not 29;
* `leastAbove_sizeClassAlign`   `size_class_align` gives the least of the sizes that are handed out;
* `size_class_align_iff`    it is extensive, idempotent and monotone exactly up to the last page.
-/

namespace Nomalloc

/-- The class that the table of small classes declares and does not initialise. -/
def BLANK_CLASS : ℕ := 29

/-- `size_class_align`; `pageSize` is what `get_page_size` returns. -/
def sizeClassAlign (pageSize size : ℕ) : ℕ :=
  if size ≤ SIZE_CLASS_SMALL_MAX then smallSizeClasses.getD (sizeToClassSmall size) 0
  else if size ≤ SIZE_CLASS_MEDIUM_MAX then
    mediumSizeClasses.getD (sizeToClassMedium size - NUM_SMALL_CLASSES) 0
  else alignUp size pageSize

/-- `nallocx` (`api/posix_api.c`) -/
def nallocx (pageSize size : ℕ) (_flags : ℤ) : ℕ :=
  if size = 0 then 0 else sizeClassAlign pageSize size

section
variable {s t c c' page : ℕ}

theorem classToSize_lt (h : c < c') (hc : c' < NUM_SIZE_CLASSES) (hblank : c' ≠ BLANK_CLASS) :
    classToSize c < classToSize c' := by
  have hall : ∀ c' < NUM_SIZE_CLASSES, c' ≠ BLANK_CLASS → ∀ c < c',
      classToSize c < classToSize c' := by decide
  exact hall c' hc hblank c h

theorem classToSize_blank : classToSize BLANK_CLASS = 0 := rfl

theorem sizeToClassSmall_first (hs : s ≤ SIZE_CLASS_SMALL_MAX) :
    ∀ j < sizeToClassSmall s, classToSize j < s := by
  intro j hj
  unfold sizeToClassSmall at hj
  by_cases h8 : s ≤ 8
  · rw [if_pos h8] at hj
    exact absurd hj (Nat.not_lt_zero j)
  rw [if_neg h8] at hj
  cases hf : (List.range NUM_SMALL_CLASSES).find? fun i => s ≤ smallSizeClasses.getD i 0 with
  | none =>
    have hlast := List.find?_eq_none.mp hf 28 (by decide)
    exact absurd (decide_eq_true (show s ≤ smallSizeClasses.getD 28 0 from hs)) hlast
  | some i =>
    obtain ⟨hi, -, hbefore⟩ := find_range_spec hf
    rw [hf, Option.getD_some] at hj
    have hsize : classToSize j = smallSizeClasses.getD j 0 := if_pos (hj.trans hi)
    rw [hsize]
    exact not_le.mp (of_decide_eq_false (hbefore j hj))

/-- The classes that hold a block. -/
def filledClasses : Set ℕ := {c | c < NUM_SIZE_CLASSES ∧ c ≠ BLANK_CLASS}

theorem monotoneOn_classToSize : MonotoneOn classToSize filledClasses := by
  intro c _ c' hc' hle
  rcases Nat.eq_or_lt_of_le hle with rfl | hlt
  · exact le_rfl
  · exact (classToSize_lt hlt hc'.1 hc'.2).le

/-- **The class of a request** is the first that fits. -/
theorem isLeast_sizeToClass (hs : s ≤ SIZE_CLASS_MEDIUM_MAX) :
    IsLeast {c | c ∈ filledClasses ∧ s ≤ classToSize c} (sizeToClass s) := by
  by_cases h1 : s ≤ SIZE_CLASS_SMALL_MAX
  · obtain ⟨hlt, hfit, -, -⟩ := sizeToClass_small h1
    refine ⟨⟨⟨hlt.trans (by decide), hlt.ne⟩, hfit⟩, fun c hc => ?_⟩
    by_contra hno
    rw [sizeToClass_of_small h1] at hno
    exact absurd hc.2 (not_le.mpr (sizeToClassSmall_first h1 c (not_le.mp hno)))
  · have h1 := not_le.mp h1
    obtain ⟨i, hi, he, hfit, hbefore⟩ := sizeToClassMedium_spec h1 hs
    rw [sizeToClass_of_medium h1 hs, he]
    refine ⟨⟨⟨Nat.add_lt_add_left hi _, ?_⟩, ?_⟩, fun c hc => ?_⟩
    · have hblank : BLANK_CLASS < NUM_SMALL_CLASSES := by decide
      omega
    · rw [classToSize_medium hi]
      exact hfit
    · -- the small classes are too small, and the medium ones before `i` do not fit
      have hsmall : ∀ c < NUM_SMALL_CLASSES, classToSize c ≤ SIZE_CLASS_SMALL_MAX := by decide
      by_contra hno
      rcases Nat.lt_or_ge c NUM_SMALL_CLASSES with hlt | hge
      · exact absurd (hc.2.trans (hsmall c hlt)) (not_le.mpr h1)
      · obtain ⟨j, rfl⟩ := Nat.exists_eq_add_of_le hge
        have hji : j < i := by omega
        have hfit' := hc.2
        rw [classToSize_medium (hji.trans hi)] at hfit'
        exact absurd hfit' (not_le.mpr (hbefore j hji))

/-- At a class that holds a block the maps are adjoint. -/
theorem sizeToClass_le_iff (hc : c ∈ filledClasses) : sizeToClass s ≤ c ↔ s ≤ classToSize c := by
  by_cases hs : s ≤ SIZE_CLASS_MEDIUM_MAX
  · exact first_le_iff (isLeast_sizeToClass hs) monotoneOn_classToSize hc
  · have hle := classToSize_le c
    have hlt := hc.1
    rw [sizeToClass_of_large (not_le.mp hs)]
    exact iff_of_false (by omega) (by omega)

theorem sizeToClass_le_blank_iff : sizeToClass s ≤ BLANK_CLASS ↔ s ≤ SIZE_CLASS_SMALL_MAX := by
  constructor
  · intro h
    by_contra hs
    have hs := not_le.mp hs
    by_cases h2 : s ≤ SIZE_CLASS_MEDIUM_MAX
    · obtain ⟨i, -, he, -⟩ := sizeToClassMedium_spec hs h2
      rw [sizeToClass_of_medium hs h2, he] at h
      have hblank : BLANK_CLASS < NUM_SMALL_CLASSES := by decide
      omega
    · rw [sizeToClass_of_large (not_le.mp h2)] at h
      exact absurd h (by decide)
  · intro h
    exact (sizeToClass_small h).1.le

end

/-- **The size-class maps.**  The class of a request is the smallest that fits; the maps are adjoint
at a class exactly when it holds a block (or the request is too large for the small ones); and
exactly the class that holds none is out of order, and is not the class of its own size. -/
theorem size_class_maps_iff {s c : ℕ} (hs : 1 ≤ s) (hc : c < NUM_SIZE_CLASSES) :
    ((sizeToClass s ≤ c ↔ s ≤ classToSize c) ↔
        (c ≠ BLANK_CLASS ∨ SIZE_CLASS_SMALL_MAX < s)) ∧
      (s ≤ SIZE_CLASS_MEDIUM_MAX →
        IsLeast {i | i < NUM_SIZE_CLASSES ∧ s ≤ classToSize i} (sizeToClass s)) ∧
      (∀ c' < c, classToSize c' < classToSize c ↔ c ≠ BLANK_CLASS) ∧
      (sizeToClass (classToSize c) = c ↔ c ≠ BLANK_CLASS) := by
  have hfits : s ≤ SIZE_CLASS_MEDIUM_MAX →
      IsLeast {i | i < NUM_SIZE_CLASSES ∧ s ≤ classToSize i} (sizeToClass s) := by
    intro hmax
    obtain ⟨⟨hfilled, hfit⟩, hleast⟩ := isLeast_sizeToClass hmax
    refine ⟨⟨hfilled.1, hfit⟩, fun i hi => hleast ⟨⟨hi.1, ?_⟩, hi.2⟩⟩
    -- nothing but a request of no bytes fits the class that holds no block
    rintro rfl
    have hsize := hi.2
    rw [classToSize_blank] at hsize
    omega
  by_cases hblank : c = BLANK_CLASS
  · subst hblank
    rw [classToSize_blank]
    refine ⟨?_, hfits, fun c' _ => iff_of_false (Nat.not_lt_zero _) (by simp),
      iff_of_false (by decide) (by simp)⟩
    rw [sizeToClass_le_blank_iff]
    omega
  · have hfilled : c ∈ filledClasses := ⟨hc, hblank⟩
    refine ⟨iff_of_true (sizeToClass_le_iff hfilled) (Or.inl hblank), hfits, fun c' hlt =>
      iff_of_true (classToSize_lt hlt hc hblank) hblank, iff_of_true ?_ hblank⟩
    refine Nat.le_antisymm ((sizeToClass_le_iff hfilled).mpr le_rfl) ?_
    by_contra hlt
    have hsize := classToSize_lt (not_le.mp hlt) hc hblank
    exact absurd (isLeast_sizeToClass (classToSize_le c)).1.2 (not_le.mpr hsize)

/-- The second class and a request of ten bytes. -/
theorem size_class_maps_ten :
    ((sizeToClass 10 ≤ 1 ↔ 10 ≤ classToSize 1) ↔
        (1 ≠ BLANK_CLASS ∨ SIZE_CLASS_SMALL_MAX < 10)) ∧
      (10 ≤ SIZE_CLASS_MEDIUM_MAX →
        IsLeast {i | i < NUM_SIZE_CLASSES ∧ 10 ≤ classToSize i} (sizeToClass 10)) ∧
      (∀ c' < 1, classToSize c' < classToSize 1 ↔ 1 ≠ BLANK_CLASS) ∧
      (sizeToClass (classToSize 1) = 1 ↔ 1 ≠ BLANK_CLASS) :=
  size_class_maps_iff (by decide) (by decide)

/-- A request of eight bytes gets class 0, which is below 29, and does not fit class 29. -/
theorem size_class_blank :
    29 < NUM_SIZE_CLASSES ∧ ¬ (sizeToClass 8 ≤ 29 ↔ 8 ≤ classToSize 29) ∧
      ¬ classToSize 28 < classToSize 29 ∧ sizeToClass (classToSize 29) ≠ 29 := by
  decide

/-! ## rounding up -/

/-- The sizes that are handed out: those of the classes, and whole pages above them. -/
def roundedSizes (pageSize : ℕ) : Set ℕ :=
  {x | (∃ c ∈ filledClasses, x = classToSize c) ∨ (SIZE_CLASS_MEDIUM_MAX < x ∧ pageSize ∣ x)}

/-- `f` rounds `s` up, once and for all, and `t` at least as far. -/
def Rounds (f : ℕ → ℕ) (s t : ℕ) : Prop := s ≤ f s ∧ f (f s) = f s ∧ f s ≤ f t

section
variable {s t page : ℕ}

theorem sizeClassAlign_of_le (hs : s ≤ SIZE_CLASS_MEDIUM_MAX) :
    sizeClassAlign page s = classToSize (sizeToClass s) := by
  unfold sizeClassAlign
  by_cases h1 : s ≤ SIZE_CLASS_SMALL_MAX
  · have hlt := (isLeast_sizeToClass hs).1.1.1
    have h29 := (sizeToClass_small h1).1
    rw [sizeToClass_of_small h1] at h29 ⊢
    rw [if_pos h1]
    exact (if_pos (h29.trans (by decide))).symm
  · have h1' := not_le.mp h1
    obtain ⟨i, hi, he, -⟩ := sizeToClassMedium_spec h1' hs
    rw [if_neg h1, if_pos hs, sizeToClass_of_medium h1' hs, he, classToSize_medium hi,
      Nat.add_sub_cancel_left]

theorem sizeClassAlign_of_lt (hs : SIZE_CLASS_MEDIUM_MAX < s) :
    sizeClassAlign page s = alignUp s page := by
  have hmax : SIZE_CLASS_SMALL_MAX ≤ SIZE_CLASS_MEDIUM_MAX := by decide
  unfold sizeClassAlign
  rw [if_neg (by omega), if_neg (by omega)]

/-- The sizes that are in a table, or below the last page. -/
def Roundable (pageSize s : ℕ) : Prop := s ≤ SIZE_CLASS_MEDIUM_MAX ∨ s + pageSize ≤ wordSize

/-- **`size_class_align`** gives the least size that is handed out and large enough. -/
theorem leastAbove_sizeClassAlign (hpage : isPowerOfTwo page = true) (hs : Roundable page s) :
    LeastAbove (roundedSizes page) s (sizeClassAlign page s) := by
  by_cases hmax : s ≤ SIZE_CLASS_MEDIUM_MAX
  · rw [sizeClassAlign_of_le hmax]
    obtain ⟨⟨hfilled, hfit⟩, hleast⟩ := isLeast_sizeToClass hmax
    refine ⟨⟨Or.inl ⟨_, hfilled, rfl⟩, hfit⟩, ?_⟩
    rintro y ⟨⟨c, hc, rfl⟩ | ⟨hy, -⟩, hsy⟩
    · exact monotoneOn_classToSize hfilled hc (hleast ⟨hc, hsy⟩)
    · exact (classToSize_le _).trans hy.le
  · have hlt := not_le.mp hmax
    have hpos := isPowerOfTwo_pos hpage
    have hword : s + page - 1 < wordSize := by
      have := hs.resolve_left hmax
      omega
    rw [sizeClassAlign_of_lt hlt]
    have hle := le_alignUp hpos hword
    refine ⟨⟨Or.inr ⟨hlt.trans_le hle, dvd_alignUp hpos hword⟩, hle⟩, ?_⟩
    rintro y ⟨⟨c, hc, rfl⟩ | ⟨-, hd⟩, hsy⟩
    · exact absurd (hsy.trans (classToSize_le c)) (not_le.mpr hlt)
    · exact alignUp_least hpos hword hsy hd

theorem roundable_sizeClassAlign (hpage : isPowerOfTwo page = true) (hlt : page < wordSize)
    (hs : Roundable page s) : Roundable page (sizeClassAlign page s) := by
  by_cases hmax : s ≤ SIZE_CLASS_MEDIUM_MAX
  · rw [sizeClassAlign_of_le hmax]
    exact Or.inl (classToSize_le _)
  · have hpos := isPowerOfTwo_pos hpage
    have hword : s + page - 1 < wordSize := by
      have := hs.resolve_left hmax
      omega
    rw [sizeClassAlign_of_lt (not_le.mp hmax)]
    exact Or.inr (add_le_wordSize_of_dvd hpage hlt (dvd_alignUp hpos hword)
      ((alignUp_le hpos hword).trans_lt hword))

theorem Roundable.of_le (ht : Roundable page t) (hst : s ≤ t) : Roundable page s := by
  unfold Roundable at *
  omega

theorem rounds_sizeClassAlign (hpage : isPowerOfTwo page = true) (hlt : page < wordSize)
    (hst : s ≤ t) (ht : Roundable page t) : Rounds (sizeClassAlign page) s t := by
  have hs := ht.of_le hst
  have hleast := leastAbove_sizeClassAlign hpage hs
  refine ⟨hleast.le, ?_, hleast.mono (leastAbove_sizeClassAlign hpage ht) hst⟩
  exact (leastAbove_sizeClassAlign hpage (roundable_sizeClassAlign hpage hlt hs)).eq_self hleast.mem

theorem rounds_nallocx (h : Rounds (sizeClassAlign page) s t) (hs : 0 < s) (hst : s ≤ t)
    (flags : ℤ) : Rounds (fun x => nallocx page x flags) s t := by
  have hpos : ∀ x, 0 < x → nallocx page x flags = sizeClassAlign page x := fun x hx =>
    if_neg (Nat.pos_iff_ne_zero.mp hx)
  obtain ⟨hle, hidem, hmono⟩ := h
  unfold Rounds
  dsimp only
  rw [hpos s hs, hpos t (hs.trans_le hst), hpos _ (hs.trans_le hle)]
  exact ⟨hle, hidem, hmono⟩

end

/-- **`size_class_align`** is extensive, idempotent and monotone, and `nallocx` with it, exactly when
the larger size is in the tables or does not reach into the last page. -/
theorem size_class_align_iff {page s t : ℕ} (hpage : isPowerOfTwo page = true)
    (hlt : page < wordSize) (hst : s ≤ t) (ht : t < wordSize) (flags : ℤ) :
    (Rounds (sizeClassAlign page) s t ∧
        (0 < s → Rounds (fun x => nallocx page x flags) s t)) ↔
      (t ≤ SIZE_CLASS_MEDIUM_MAX ∨ t + page ≤ wordSize) := by
  constructor
  · rintro ⟨⟨hle, -, hmono⟩, -⟩
    by_contra hno
    obtain ⟨hmax, hword⟩ := not_or.mp hno
    -- the larger size wraps to zero
    have hwrap : sizeClassAlign page t = 0 := by
      rw [sizeClassAlign_of_lt (not_le.mp hmax)]
      exact alignUp_wraps ht hlt (by omega)
    have hzero : s = 0 := by omega
    have height : sizeClassAlign page 0 = 8 := rfl
    rw [hzero] at hmono
    omega
  · intro ht'
    have h := rounds_sizeClassAlign hpage hlt hst ht'
    exact ⟨h, fun hs => rounds_nallocx h hs hst flags⟩

/-- A small and a medium size. -/
theorem size_class_align_small :
    (Rounds (sizeClassAlign 4096) 10 5000 ∧
        (0 < 10 → Rounds (fun x => nallocx 4096 x 0) 10 5000)) ↔
      (5000 ≤ SIZE_CLASS_MEDIUM_MAX ∨ 5000 + 4096 ≤ wordSize) :=
  size_class_align_iff (by decide) (by decide) (by decide) (by decide) 0

/-- In the last page the size wraps to zero. -/
theorem size_class_align_wraps :
    isPowerOfTwo 4096 = true ∧ 2 ^ 64 - 1 < wordSize ∧
      ¬ 2 ^ 64 - 1 ≤ sizeClassAlign 4096 (2 ^ 64 - 1) ∧
      sizeClassAlign 4096 (sizeClassAlign 4096 (2 ^ 64 - 1)) ≠ sizeClassAlign 4096 (2 ^ 64 - 1) ∧
      ¬ nallocx 4096 1 0 ≤ nallocx 4096 (2 ^ 64 - 1) 0 := by
  decide

end Nomalloc
