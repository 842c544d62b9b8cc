import Nomalloc.Utils.Math

/-!
# `core/size_class.h`

The two size tables and the maps between request sizes and class indices.  The table of small
classes is declared with `NUM_SMALL_CLASSES = 30` entries and initialised with 29 of them, so
class 29 has size zero (`class_to_size` of it is what the source calls an invalid block size).

* `sizeToClass`, `classToSize`     the maps of the header;
* `classToSize_dvd`                every class size is a multiple of eight;
* `sizeToClass_small`              a small request gets a class between 8 and 4096 bytes that
                                   fits it;
* `isLargeClassIdx_iff`, `sizeToClass_medium`   the requests above 1 MiB, and those between.
-/

namespace Nomalloc

def NUM_SMALL_CLASSES : ℕ := 30
def NUM_MEDIUM_CLASSES : ℕ := 17
def NUM_SIZE_CLASSES : ℕ := NUM_SMALL_CLASSES + NUM_MEDIUM_CLASSES

def SIZE_CLASS_SMALL_MAX : ℕ := 4 * 1024
def SIZE_CLASS_MEDIUM_MAX : ℕ := 1 * 1024 * 1024

/-- `small_size_classes`; the last entry has no initialiser in the source. -/
def smallSizeClasses : List ℕ :=
  [8, 16, 32, 48, 64, 80, 96, 112, 128,
   160, 192, 224, 256, 320, 384, 448, 512,
   640, 768, 896, 1024, 1280, 1536, 1792, 2048,
   2560, 3072, 3584, 4096, 0]

/-- `medium_size_classes` -/
def mediumSizeClasses : List ℕ :=
  [8192, 12288, 16384, 20480, 24576, 28672, 32768,
   49152, 65536, 98304, 131072, 196608, 262144,
   393216, 524288, 786432, 1048576]

/-- `size_to_class_small` -/
def sizeToClassSmall (size : ℕ) : ℕ :=
  if size ≤ 8 then 0
  else ((List.range NUM_SMALL_CLASSES).find? fun i => size ≤ smallSizeClasses.getD i 0).getD
    (NUM_SMALL_CLASSES - 1)

/-- `size_to_class_medium` -/
def sizeToClassMedium (size : ℕ) : ℕ :=
  let adjusted := if size ≤ SIZE_CLASS_SMALL_MAX then SIZE_CLASS_SMALL_MAX + 1 else size
  (((List.range NUM_MEDIUM_CLASSES).find? fun i => adjusted ≤ mediumSizeClasses.getD i 0).map
    fun i => NUM_SMALL_CLASSES + i).getD (NUM_SIZE_CLASSES - 1)

/-- `size_to_class` -/
def sizeToClass (size : ℕ) : ℕ :=
  if size ≤ SIZE_CLASS_SMALL_MAX then sizeToClassSmall size
  else if size ≤ SIZE_CLASS_MEDIUM_MAX then sizeToClassMedium size
  else NUM_SIZE_CLASSES

/-- `class_to_size` -/
def classToSize (c : ℕ) : ℕ :=
  if c < NUM_SMALL_CLASSES then smallSizeClasses.getD c 0
  else if c < NUM_SIZE_CLASSES then mediumSizeClasses.getD (c - NUM_SMALL_CLASSES) 0
  else 0

/-- `is_small_class_idx` -/
def isSmallClassIdx (c : ℕ) : Bool := c < NUM_SMALL_CLASSES

/-- `is_medium_class_idx` -/
def isMediumClassIdx (c : ℕ) : Bool := NUM_SMALL_CLASSES ≤ c ∧ c < NUM_SIZE_CLASSES

/-- `is_large_class_idx` -/
def isLargeClassIdx (c : ℕ) : Bool := NUM_SIZE_CLASSES ≤ c

theorem classToSize_dvd (c : ℕ) : 8 ∣ classToSize c := by
  by_cases h : c < NUM_SIZE_CLASSES
  · have hall : ∀ c < NUM_SIZE_CLASSES, 8 ∣ classToSize c := by decide
    exact hall c h
  · have hs : ¬ c < NUM_SMALL_CLASSES := fun hc => h (lt_of_lt_of_le hc (by decide))
    simp [classToSize, hs, h]

/-- The size of a class is that of a request that is not large. -/
theorem classToSize_le (c : ℕ) : classToSize c ≤ SIZE_CLASS_MEDIUM_MAX := by
  by_cases h : c < NUM_SIZE_CLASSES
  · have hall : ∀ c < NUM_SIZE_CLASSES, classToSize c ≤ SIZE_CLASS_MEDIUM_MAX := by decide
    exact hall c h
  · have hs : ¬ c < NUM_SMALL_CLASSES := fun hc => h (lt_of_lt_of_le hc (by decide))
    simp [classToSize, hs, h]

theorem classToSize_zero : classToSize 0 = 8 := rfl

/-- The first entry of a table that fits is where the linear search stops. -/
theorem find_range_spec {p : ℕ → Bool} {n i : ℕ} (h : (List.range n).find? p = some i) :
    i < n ∧ p i = true ∧ ∀ j < i, p j = false := by
  obtain ⟨hp, hi, hbefore⟩ := List.find?_range_eq_some.mp h
  exact ⟨List.mem_range.mp hi, hp, fun j hj => by simpa using hbefore j hj⟩

/-! ## the three kinds of requests -/

theorem sizeToClass_of_small {s : ℕ} (hs : s ≤ SIZE_CLASS_SMALL_MAX) :
    sizeToClass s = sizeToClassSmall s := if_pos hs

theorem sizeToClass_of_medium {s : ℕ} (h1 : SIZE_CLASS_SMALL_MAX < s)
    (h2 : s ≤ SIZE_CLASS_MEDIUM_MAX) : sizeToClass s = sizeToClassMedium s := by
  unfold sizeToClass
  rw [if_neg (not_le.mpr h1), if_pos h2]

theorem sizeToClass_of_large {s : ℕ} (hs : SIZE_CLASS_MEDIUM_MAX < s) :
    sizeToClass s = NUM_SIZE_CLASSES := by
  have hmax : SIZE_CLASS_SMALL_MAX ≤ SIZE_CLASS_MEDIUM_MAX := by decide
  unfold sizeToClass
  rw [if_neg (by omega), if_neg (by omega)]

theorem classToSize_medium {i : ℕ} (hi : i < NUM_MEDIUM_CLASSES) :
    classToSize (NUM_SMALL_CLASSES + i) = mediumSizeClasses.getD i 0 := by
  have hlt : NUM_SMALL_CLASSES + i < NUM_SIZE_CLASSES := Nat.add_lt_add_left hi _
  unfold classToSize
  rw [if_neg (by omega), if_pos hlt, Nat.add_sub_cancel_left]

theorem sizeToClassMedium_spec {s : ℕ} (h1 : SIZE_CLASS_SMALL_MAX < s)
    (h2 : s ≤ SIZE_CLASS_MEDIUM_MAX) :
    ∃ i < NUM_MEDIUM_CLASSES, sizeToClassMedium s = NUM_SMALL_CLASSES + i ∧
      s ≤ mediumSizeClasses.getD i 0 ∧ ∀ j < i, mediumSizeClasses.getD j 0 < s := by
  unfold sizeToClassMedium
  dsimp only
  rw [if_neg (not_le.mpr h1)]
  cases hf : (List.range NUM_MEDIUM_CLASSES).find? fun i => s ≤ mediumSizeClasses.getD i 0 with
  | none =>
    have hlast := List.find?_eq_none.mp hf 16 (by decide)
    exact absurd (decide_eq_true (show s ≤ mediumSizeClasses.getD 16 0 from h2)) hlast
  | some i =>
    obtain ⟨hi, hfit, hbefore⟩ := find_range_spec hf
    exact ⟨i, hi, rfl, of_decide_eq_true hfit,
      fun j hj => not_le.mp (of_decide_eq_false (hbefore j hj))⟩

/-- A request of at most 4096 bytes gets one of the 29 classes that hold a block, and fits. -/
theorem sizeToClass_small {s : ℕ} (hs : s ≤ 4096) :
    sizeToClass s < 29 ∧ s ≤ classToSize (sizeToClass s) ∧
      0 < classToSize (sizeToClass s) ∧ classToSize (sizeToClass s) ≤ 4096 := by
  rw [sizeToClass_of_small hs]
  unfold sizeToClassSmall
  by_cases h8 : s ≤ 8
  · rw [if_pos h8]
    exact ⟨by decide, h8, by decide, by decide⟩
  · rw [if_neg h8]
    have hlast : s ≤ smallSizeClasses.getD 28 0 := hs
    cases hf : (List.range NUM_SMALL_CLASSES).find? fun i => s ≤ smallSizeClasses.getD i 0 with
    | none =>
      have := List.find?_eq_none.mp hf 28 (by decide)
      exact absurd (decide_eq_true hlast) this
    | some i =>
      obtain ⟨hi, hfit, hbefore⟩ := find_range_spec hf
      have hi29 : i < 29 := by
        by_contra hge
        have h28 := hbefore 28 (by omega)
        exact absurd hlast (of_decide_eq_false h28)
      have hsize : classToSize i = smallSizeClasses.getD i 0 := if_pos hi
      have hbounds : ∀ i < 29, 0 < classToSize i ∧ classToSize i ≤ 4096 := by decide
      refine ⟨hi29, ?_, hbounds i hi29⟩
      show s ≤ classToSize i
      rw [hsize]
      exact of_decide_eq_true hfit

/-- Only the requests of at most eight bytes are of class zero. -/
theorem sizeToClass_eq_zero {s : ℕ} (hs : s ≤ 4096) : sizeToClass s = 0 ↔ s ≤ 8 := by
  constructor
  · intro h
    have hfit := (sizeToClass_small hs).2.1
    rwa [h] at hfit
  · intro h
    rw [sizeToClass_of_small hs]
    exact if_pos h

theorem isLargeClassIdx_iff {s : ℕ} :
    isLargeClassIdx (sizeToClass s) = true ↔ SIZE_CLASS_MEDIUM_MAX < s := by
  have hmax : SIZE_CLASS_SMALL_MAX ≤ SIZE_CLASS_MEDIUM_MAX := by decide
  unfold isLargeClassIdx
  rw [decide_eq_true_eq]
  by_cases h1 : s ≤ SIZE_CLASS_SMALL_MAX
  · have hlt : sizeToClass s < NUM_SIZE_CLASSES := (sizeToClass_small h1).1.trans (by decide)
    omega
  have h1 := not_le.mp h1
  by_cases h2 : s ≤ SIZE_CLASS_MEDIUM_MAX
  · obtain ⟨i, hi, he, -, -⟩ := sizeToClassMedium_spec h1 h2
    have hlt : NUM_SMALL_CLASSES + i < NUM_SIZE_CLASSES := Nat.add_lt_add_left hi _
    rw [sizeToClass_of_medium h1 h2, he]
    omega
  · rw [sizeToClass_of_large (not_le.mp h2)]
    omega

/-- A class between is one of more than 4096 bytes. -/
theorem sizeToClass_medium {s : ℕ} (h1 : 4096 < s) (h2 : s ≤ SIZE_CLASS_MEDIUM_MAX) :
    4096 < classToSize (sizeToClass s) := by
  obtain ⟨i, hi, he, hfit, -⟩ := sizeToClassMedium_spec h1 h2
  rw [sizeToClass_of_medium h1 h2, he, classToSize_medium hi]
  exact h1.trans_le hfit

end Nomalloc
