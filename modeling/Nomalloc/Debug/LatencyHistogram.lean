import Nomalloc.Lib.Ranks
import Nomalloc.Utils.Math

/-!
# The latency histograms of `debug/stats_collector.h`

`latency_histogram_add` counts a sample in its bucket, samples beyond the range in the last one, and
keeps the number, the sum, the least and the greatest of the samples.  There are 64 buckets, whatever
`max_buckets` says.  `min_ns = 0` stands for no minimum yet, and a sample of zero leaves just that
behind.

* `buckets_addAll`              the buckets hold the counts of `Ranks`, in 64 bits;
* `minNs_addAll`                the minimum is zero exactly when the last sample is;
* `latency_histogram_add_iff`   a histogram summarises its samples exactly when their buckets are among
                                the 64, there are fewer than `2^64`, and a sample of zero is the last.
-/

namespace Nomalloc

def STATS_LATENCY_MAX_BUCKETS : ℕ := 64

/-- `struct latency_histogram` -/
structure LatencyHistogram where
  buckets : List ℕ
  bucketSize : ℕ
  maxBuckets : ℕ
  totalSamples : ℕ
  sumNs : ℕ
  minNs : ℕ
  maxNs : ℕ

namespace LatencyHistogram

/-- A histogram without samples. -/
def fresh (bucketSize maxBuckets : ℕ) : LatencyHistogram where
  buckets := List.replicate STATS_LATENCY_MAX_BUCKETS 0
  bucketSize := bucketSize
  maxBuckets := maxBuckets
  totalSamples := 0
  sumNs := 0
  minNs := 0
  maxNs := 0

/-- `bucket_idx` in `latency_histogram_add`. -/
def bucketIdx (bucketSize maxBuckets value : ℕ) : ℕ :=
  if maxBuckets ≤ value / bucketSize then subW maxBuckets 1 else value / bucketSize

/-- `latency_histogram_add`, where it `Takes` the sample. -/
def add (hist : LatencyHistogram) (value : ℕ) : LatencyHistogram where
  buckets := hist.buckets.modify (bucketIdx hist.bucketSize hist.maxBuckets value) (addW · 1)
  bucketSize := hist.bucketSize
  maxBuckets := hist.maxBuckets
  totalSamples := addW hist.totalSamples 1
  sumNs := addW hist.sumNs value
  minNs := if value < hist.minNs ∨ hist.minNs = 0 then value else hist.minNs
  maxNs := if hist.maxNs < value then value else hist.maxNs

/-- One sample after the other. -/
def addAll (hist : LatencyHistogram) (samples : List ℕ) : LatencyHistogram := samples.foldl add hist

/-- Nothing is divided by zero, and the bucket lies in the array. -/
def Takes (hist : LatencyHistogram) (value : ℕ) : Prop :=
  hist.bucketSize ≠ 0 ∧ bucketIdx hist.bucketSize hist.maxBuckets value < hist.buckets.length

instance (hist : LatencyHistogram) (value : ℕ) : Decidable (hist.Takes value) :=
  inferInstanceAs (Decidable (_ ∧ _))

/-- One sample after the other, as long as they are taken. -/
def addEach (hist : LatencyHistogram) : List ℕ → Option LatencyHistogram
  | [] => some hist
  | v :: samples => if hist.Takes v then (hist.add v).addEach samples else none

/-- What a histogram is to say of its samples. -/
structure Summarises (hist : LatencyHistogram) (samples : List ℕ) : Prop where
  buckets : hist.buckets.sum = hist.totalSamples
  total : hist.totalSamples = samples.length
  sum : hist.sumNs = samples.sum
  greatest : IsGreatest {v | v ∈ samples} hist.maxNs
  least : IsLeast {v | v ∈ samples} hist.minNs

/-! ## the fields of a histogram -/

section
variable {bucketSize maxBuckets : ℕ} {samples : List ℕ}

@[simp] theorem add_buckets (hist : LatencyHistogram) (v : ℕ) : (hist.add v).buckets =
    hist.buckets.modify (bucketIdx hist.bucketSize hist.maxBuckets v) (addW · 1) := rfl

@[simp] theorem add_totalSamples (hist : LatencyHistogram) (v : ℕ) :
    (hist.add v).totalSamples = addW hist.totalSamples 1 := rfl

@[simp] theorem add_sumNs (hist : LatencyHistogram) (v : ℕ) :
    (hist.add v).sumNs = addW hist.sumNs v := rfl

@[simp] theorem add_minNs (hist : LatencyHistogram) (v : ℕ) :
    (hist.add v).minNs = if v < hist.minNs ∨ hist.minNs = 0 then v else hist.minNs := rfl

@[simp] theorem add_maxNs (hist : LatencyHistogram) (v : ℕ) :
    (hist.add v).maxNs = if hist.maxNs < v then v else hist.maxNs := rfl

theorem takes_add (hist : LatencyHistogram) (v w : ℕ) : (hist.add v).Takes w ↔ hist.Takes w := by
  unfold Takes
  rw [add_buckets, List.length_modify]
  exact Iff.rfl

theorem addEach_eq_some {hist h : LatencyHistogram} :
    hist.addEach samples = some h ↔ (∀ v ∈ samples, hist.Takes v) ∧ h = hist.addAll samples := by
  induction samples generalizing hist with
  | nil =>
    unfold addEach
    rw [Option.some.injEq, eq_comm]
    exact ⟨fun heq => ⟨fun v hv => absurd hv List.not_mem_nil, heq⟩, fun heq => heq.2⟩
  | cons v samples ih =>
    unfold addEach
    rw [List.forall_mem_cons]
    by_cases hv : hist.Takes v
    · rw [if_pos hv, ih]
      simp only [takes_add, hv, true_and]
      rfl
    · rw [if_neg hv]
      exact iff_of_false (fun heq => by cases heq) (fun hall => hv hall.1.1)

theorem addAll_concat (hist : LatencyHistogram) (samples : List ℕ) (v : ℕ) :
    hist.addAll (samples ++ [v]) = (hist.addAll samples).add v :=
  List.foldl_append

theorem sizes_addAll (hist : LatencyHistogram) (samples : List ℕ) :
    (hist.addAll samples).bucketSize = hist.bucketSize ∧
      (hist.addAll samples).maxBuckets = hist.maxBuckets := by
  induction samples using List.reverseRecOn with
  | nil => exact ⟨rfl, rfl⟩
  | append_singleton samples v ih => rwa [addAll_concat]

theorem modify_map_mod (counts : List ℕ) (i : ℕ) :
    (counts.map (· % wordSize)).modify i (addW · 1) =
      (counts.modify i (· + 1)).map (· % wordSize) := by
  refine List.ext_getElem? fun j => ?_
  rw [List.getElem?_modify, List.getElem?_map, List.getElem?_map, List.getElem?_modify]
  by_cases h : i = j
  · cases hj : counts[j]? with
    | none => rfl
    | some c =>
      simp only [h, if_true, Option.map_eq_map, Option.map_some]
      rw [addW, Nat.mod_add_mod]
  · simp [h]

theorem buckets_addAll (bucketSize maxBuckets : ℕ) (samples : List ℕ) :
    ((fresh bucketSize maxBuckets).addAll samples).buckets =
      (Ranks.counts (bucketIdx bucketSize maxBuckets) STATS_LATENCY_MAX_BUCKETS samples).map
        (· % wordSize) := by
  induction samples using List.reverseRecOn with
  | nil => rw [Ranks.counts_nil, List.map_replicate]; rfl
  | append_singleton samples v ih =>
    obtain ⟨hsize, hmax⟩ := sizes_addAll (fresh bucketSize maxBuckets) samples
    rw [addAll_concat, add_buckets, hsize, hmax, ih, fresh, modify_map_mod, Ranks.modify_counts]

theorem totalSamples_addAll (bucketSize maxBuckets : ℕ) (samples : List ℕ) :
    ((fresh bucketSize maxBuckets).addAll samples).totalSamples = samples.length % wordSize := by
  induction samples using List.reverseRecOn with
  | nil => rfl
  | append_singleton samples v ih =>
    rw [addAll_concat, add_totalSamples, ih, addW, Nat.mod_add_mod, List.length_append, List.length_singleton]

theorem sumNs_addAll (bucketSize maxBuckets : ℕ) (samples : List ℕ) :
    ((fresh bucketSize maxBuckets).addAll samples).sumNs = samples.sum % wordSize := by
  induction samples using List.reverseRecOn with
  | nil => rfl
  | append_singleton samples v ih =>
    rw [addAll_concat, add_sumNs, ih, addW, Nat.mod_add_mod, List.sum_append, List.sum_singleton]

/-- `max_ns` starts at zero, which no sample is below. -/
theorem maxNs_addAll (hne : samples ≠ []) :
    IsGreatest {v | v ∈ samples} ((fresh bucketSize maxBuckets).addAll samples).maxNs := by
  induction samples using List.reverseRecOn with
  | nil => exact absurd rfl hne
  | append_singleton samples v ih =>
    rw [addAll_concat, add_maxNs]
    by_cases hempty : samples = []
    · subst hempty
      have hv : (if 0 < v then v else 0) = v := by split_ifs <;> omega
      refine ⟨List.mem_singleton.mpr hv, fun w hw => ?_⟩
      rw [List.mem_singleton.mp hw]
      exact hv.ge
    · obtain ⟨hmem, hup⟩ := ih hempty
      split_ifs with h
      · refine ⟨List.mem_append_right _ (List.mem_singleton_self v), fun w hw => ?_⟩
        rcases List.mem_append.mp hw with hw | hw
        · exact (hup hw).trans h.le
        · exact (List.mem_singleton.mp hw).le
      · refine ⟨List.mem_append_left _ hmem, fun w hw => ?_⟩
        rcases List.mem_append.mp hw with hw | hw
        · exact hup hw
        · rw [List.mem_singleton.mp hw]
          exact Nat.le_of_not_lt h

/-! ## the minimum -/

/-- Without a sample of zero the minimum is right. -/
theorem minNs_addAll_of_pos (hne : samples ≠ []) (hpos : 0 ∉ samples) :
    IsLeast {v | v ∈ samples} ((fresh bucketSize maxBuckets).addAll samples).minNs := by
  induction samples using List.reverseRecOn with
  | nil => exact absurd rfl hne
  | append_singleton samples v ih =>
    rw [addAll_concat, add_minNs]
    by_cases hempty : samples = []
    · subst hempty
      have hv : (if v < 0 ∨ 0 = 0 then v else 0) = v := if_pos (Or.inr rfl)
      refine ⟨List.mem_singleton.mpr hv, fun w hw => ?_⟩
      rw [List.mem_singleton.mp hw]
      exact hv.le
    · obtain ⟨hmem, hlow⟩ := ih hempty fun h => hpos (List.mem_append_left _ h)
      have hzero : ((fresh bucketSize maxBuckets).addAll samples).minNs ≠ 0 := fun h =>
        hpos (List.mem_append_left _ (h ▸ hmem))
      split_ifs with h
      · have hlt := h.resolve_right hzero
        refine ⟨List.mem_append_right _ (List.mem_singleton_self v), fun w hw => ?_⟩
        rcases List.mem_append.mp hw with hw | hw
        · exact hlt.le.trans (hlow hw)
        · exact (List.mem_singleton.mp hw).ge
      · refine ⟨List.mem_append_left _ hmem, fun w hw => ?_⟩
        rcases List.mem_append.mp hw with hw | hw
        · exact hlow hw
        · rw [List.mem_singleton.mp hw]
          exact Nat.le_of_not_lt (not_or.mp h).1

theorem minNs_addAll (hist : LatencyHistogram) (samples : List ℕ) (v : ℕ) :
    (hist.addAll (samples ++ [v])).minNs = 0 ↔ v = 0 := by
  rw [addAll_concat, add_minNs]
  split_ifs with h
  · exact Iff.rfl
  · obtain ⟨hge, hne⟩ := not_or.mp h
    omega

theorem least_iff (hne : samples ≠ []) :
    IsLeast {v | v ∈ samples} ((fresh bucketSize maxBuckets).addAll samples).minNs ↔
      0 ∉ samples ∨ samples.getLast hne = 0 := by
  by_cases hzero : 0 ∈ samples
  · obtain ⟨init, last, rfl⟩ : ∃ init last, samples = init ++ [last] :=
      ⟨_, _, (List.dropLast_append_getLast hne).symm⟩
    have hiff := minNs_addAll (fresh bucketSize maxBuckets) init last
    rw [List.getLast_append_singleton, ← hiff]
    constructor
    · intro hleast
      exact Or.inr (Nat.le_zero.mp (hleast.2 hzero))
    · intro h
      have hmin := h.resolve_left (not_not_intro hzero)
      exact ⟨by rwa [hmin], fun w _ => by rw [hmin]; exact Nat.zero_le w⟩
  · exact iff_of_true (minNs_addAll_of_pos hne hzero) (Or.inl hzero)

/-! ## the whole histogram -/

theorem countP_le (p : ℕ → Bool) (h : samples.length < wordSize) : samples.countP p < wordSize :=
  List.countP_le_length.trans_lt h

/-- Below `2^64` samples no bucket wraps. -/
theorem buckets_eq_counts (h : samples.length < wordSize) :
    ((fresh bucketSize maxBuckets).addAll samples).buckets =
      Ranks.counts (bucketIdx bucketSize maxBuckets) STATS_LATENCY_MAX_BUCKETS samples := by
  rw [buckets_addAll]
  refine (List.map_congr_left fun c hc => ?_).trans (List.map_id _)
  obtain ⟨i, -, rfl⟩ := List.mem_map.mp hc
  exact Nat.mod_eq_of_lt (countP_le _ h)

end

end LatencyHistogram

/-- **The histogram** summarises its samples exactly when their buckets are among the 64, there are
fewer than `2^64` of them, and either none is zero or the last one is. -/
theorem latency_histogram_add_iff {bucketSize maxBuckets : ℕ} (hsize : 0 < bucketSize)
    {samples : List ℕ} (hne : samples ≠ []) (hsum : samples.sum < wordSize) :
    (∃ hist, (LatencyHistogram.fresh bucketSize maxBuckets).addEach samples = some hist ∧
        hist.Summarises samples) ↔
      (∀ v ∈ samples, LatencyHistogram.bucketIdx bucketSize maxBuckets v < STATS_LATENCY_MAX_BUCKETS) ∧
        samples.length < wordSize ∧ (0 ∉ samples ∨ samples.getLast hne = 0) := by
  have htakes : (∀ v ∈ samples, (LatencyHistogram.fresh bucketSize maxBuckets).Takes v) ↔
      ∀ v ∈ samples,
        LatencyHistogram.bucketIdx bucketSize maxBuckets v < STATS_LATENCY_MAX_BUCKETS :=
    forall₂_congr fun v _ => and_iff_right hsize.ne'
  have htotal := LatencyHistogram.totalSamples_addAll bucketSize maxBuckets samples
  simp only [LatencyHistogram.addEach_eq_some, htakes]
  constructor
  · rintro ⟨hist, ⟨hin, rfl⟩, h⟩
    refine ⟨hin, ?_, (LatencyHistogram.least_iff hne).mp h.least⟩
    rw [← h.total, htotal]
    exact Nat.mod_lt _ (by decide)
  · rintro ⟨hin, hlen, hmin⟩
    rw [Nat.mod_eq_of_lt hlen] at htotal
    refine ⟨_, ⟨hin, rfl⟩, ?_, htotal, ?_, LatencyHistogram.maxNs_addAll hne,
      (LatencyHistogram.least_iff hne).mpr hmin⟩
    · rw [LatencyHistogram.buckets_eq_counts hlen, Ranks.sum_counts, htotal]
      exact List.countP_eq_length.mpr fun v hv => decide_eq_true (hin v hv)
    · rw [LatencyHistogram.sumNs_addAll, Nat.mod_eq_of_lt hsum]

/-- Three samples, the last of them beyond the range. -/
theorem latency_histogram_three :
    (∃ hist, (LatencyHistogram.fresh 16 64).addEach [20, 7, 5000] = some hist ∧
        hist.Summarises [20, 7, 5000]) ↔
      (∀ v ∈ [20, 7, 5000], LatencyHistogram.bucketIdx 16 64 v < STATS_LATENCY_MAX_BUCKETS) ∧
        [20, 7, 5000].length < wordSize ∧
          (0 ∉ [20, 7, 5000] ∨ [20, 7, 5000].getLast (by decide) = 0) :=
  latency_histogram_add_iff (by decide) (by decide) (by decide)

/-- A sample of zero is forgotten by the next one. -/
theorem latency_histogram_zero :
    ∃ hist, (LatencyHistogram.fresh 16 64).addEach [0, 5] = some hist ∧ hist.minNs = 5 ∧
      ¬ hist.Summarises [0, 5] := by
  refine ⟨(LatencyHistogram.fresh 16 64).addAll [0, 5], by rfl, by decide, fun h => ?_⟩
  have hlow : ((LatencyHistogram.fresh 16 64).addAll [0, 5]).minNs ≤ 0 := h.least.2 (by decide)
  exact absurd hlow (by decide)

end Nomalloc
