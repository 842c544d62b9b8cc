import Nomalloc.Debug.LatencyHistogram

/-!
# The percentiles of a latency histogram

`latency_histogram_get_p50` and `latency_histogram_get_p99` add the buckets up until they have the
wanted number of samples, and return the lower edge of the bucket they have come to.  That number is
rounded down: the median of one sample is asked for as its zeroth smallest, which is found in the
first bucket whether that has a sample or not.

* `scanBuckets_eq`              the loop finds the bucket of the sample of a given rank;
* `latency_percentiles_iff`     the percentiles are those of the rank rounded up exactly when the two
                                ranks are the same or fall in one bucket.
-/

namespace Nomalloc

namespace LatencyHistogram

/-- The loop of `latency_histogram_get_p50` and `latency_histogram_get_p99` from bucket `i` on, with
the number of buckets left. -/
def scanBuckets (hist : LatencyHistogram) (target : ℕ) : ℕ → ℕ → ℕ → ℕ
  | 0, _, _ => hist.maxNs
  | r + 1, i, cumulative =>
    let cumulative := addW cumulative (hist.buckets.getD i 0)
    if target ≤ cumulative then i * hist.bucketSize % wordSize
    else hist.scanBuckets target r (i + 1) cumulative

/-- `latency_histogram_get_p50` -/
def getP50 (hist : LatencyHistogram) : ℕ :=
  if hist.totalSamples = 0 then 0
  else hist.scanBuckets (hist.totalSamples / 2) hist.maxBuckets 0 0

/-- `latency_histogram_get_p99` -/
def getP99 (hist : LatencyHistogram) : ℕ :=
  if hist.totalSamples = 0 then 0
  else hist.scanBuckets (hist.totalSamples * 99 % wordSize / 100) hist.maxBuckets 0 0

/-- The bucket of the `k`-th smallest sample; the first one for `k = 0`. -/
def rankBucket (bucketSize maxBuckets : ℕ) (samples : List ℕ) (k : ℕ) : ℕ :=
  ((Ranks.kthSmallest samples k).map (bucketIdx bucketSize maxBuckets)).getD 0

/-! ## ranks -/

section
variable {bucketSize maxBuckets : ℕ} {samples : List ℕ} {target k : ℕ}

theorem bucketIdx_eq_min (hpos : 0 < maxBuckets) (hlt : maxBuckets < wordSize) (v : ℕ) :
    bucketIdx bucketSize maxBuckets v = min (v / bucketSize) (maxBuckets - 1) := by
  unfold bucketIdx
  split_ifs with h
  · rw [subW_eq hpos hlt, min_eq_right (by omega)]
  · rw [min_eq_left (by omega)]

theorem monotone_bucketIdx (hpos : 0 < maxBuckets) (hlt : maxBuckets < wordSize) :
    Monotone (bucketIdx bucketSize maxBuckets) := by
  intro v w h
  rw [bucketIdx_eq_min hpos hlt, bucketIdx_eq_min hpos hlt]
  exact min_le_min_right _ (Nat.div_le_div_right h)

theorem bucketIdx_lt (hpos : 0 < maxBuckets) (hlt : maxBuckets < wordSize) (v : ℕ) :
    bucketIdx bucketSize maxBuckets v < maxBuckets := by
  rw [bucketIdx_eq_min hpos hlt]
  omega

theorem edge_le (hpos : 0 < maxBuckets) (hlt : maxBuckets < wordSize) (v : ℕ) :
    bucketIdx bucketSize maxBuckets v * bucketSize ≤ v := by
  rw [bucketIdx_eq_min hpos hlt]
  exact (Nat.mul_le_mul_right _ (min_le_left _ _)).trans (Nat.div_mul_le_self v bucketSize)

/-- The loop stops at the first bucket up to which there are enough samples. -/
theorem scanBuckets_stop (hlen : samples.length < wordSize) {m : ℕ} (hm : m < maxBuckets)
    (hin : m < STATS_LATENCY_MAX_BUCKETS)
    (hbefore : m = 0 ∨ samples.countP (bucketIdx bucketSize maxBuckets · < m) < target)
    (hstop : target ≤ samples.countP (bucketIdx bucketSize maxBuckets · < m + 1)) {d i : ℕ}
    (hi : i + d = m) :
    ((fresh bucketSize maxBuckets).addAll samples).scanBuckets target (maxBuckets - i) i
        (samples.countP (bucketIdx bucketSize maxBuckets · < i)) =
      m * bucketSize % wordSize := by
  obtain ⟨hsize, -⟩ := sizes_addAll (fresh bucketSize maxBuckets) samples
  have hcum : ∀ i ≤ m, addW (samples.countP (bucketIdx bucketSize maxBuckets · < i))
      (((fresh bucketSize maxBuckets).addAll samples).buckets.getD i 0) =
      samples.countP (bucketIdx bucketSize maxBuckets · < i + 1) := by
    intro i hi
    rw [buckets_eq_counts hlen, List.getD_eq_getElem?_getD, Ranks.getElem?_counts _ (hi.trans_lt hin),
      Option.getD_some, Ranks.countP_lt_succ]
    refine addW_eq ?_
    rw [← Ranks.countP_lt_succ]
    exact countP_le _ hlen
  induction d generalizing i with
  | zero =>
    obtain rfl : i = m := hi
    obtain ⟨r, hr⟩ : ∃ r, maxBuckets - i = r + 1 := ⟨maxBuckets - i - 1, by omega⟩
    rw [hr, scanBuckets, hcum i le_rfl, if_pos hstop, hsize]
    rfl
  | succ d ih =>
    obtain ⟨r, hr⟩ : ∃ r, maxBuckets - i = r + 1 := ⟨maxBuckets - i - 1, by omega⟩
    have hnext : maxBuckets - (i + 1) = r := by omega
    have hgo : ¬ target ≤ samples.countP (bucketIdx bucketSize maxBuckets · < i + 1) := by
      have hmono : samples.countP (bucketIdx bucketSize maxBuckets · < i + 1) ≤
          samples.countP (bucketIdx bucketSize maxBuckets · < m) :=
        List.countP_mono_left fun v _ hv =>
          decide_eq_true ((of_decide_eq_true hv).trans_le (by omega))
      have hlow := hbefore.resolve_left (by omega)
      omega
    rw [hr, scanBuckets, hcum i (by omega), if_neg hgo, ← hnext]
    exact ih (by omega)

theorem scanBuckets_eq (hpos : 0 < maxBuckets) (hlt : maxBuckets < wordSize)
    (hlen : samples.length < wordSize) (hsamples : ∀ v ∈ samples, v < wordSize)
    (hin : ∀ v ∈ samples, bucketIdx bucketSize maxBuckets v < STATS_LATENCY_MAX_BUCKETS)
    (htarget : target ≤ samples.length) :
    ((fresh bucketSize maxBuckets).addAll samples).scanBuckets target maxBuckets 0 0 =
      rankBucket bucketSize maxBuckets samples target * bucketSize := by
  have hzero : samples.countP (bucketIdx bucketSize maxBuckets · < 0) = 0 :=
    List.countP_eq_zero.mpr fun v _ => by simp
  have hscan := @scanBuckets_stop bucketSize maxBuckets samples target hlen
  cases target with
  | zero =>
    have h := hscan hpos (by decide) (Or.inl rfl) (Nat.zero_le _) (Nat.zero_add 0)
    rw [hzero, Nat.sub_zero, Nat.zero_mul] at h
    rw [h]
    exact (Nat.zero_mul bucketSize).symm
  | succ k =>
    obtain ⟨x, hmem, hx⟩ := Ranks.exists_kthSmallest htarget
    obtain ⟨hbelow, hupto⟩ := (Ranks.bucket_eq_iff (monotone_bucketIdx hpos hlt) hx).mp rfl
    have h := hscan (bucketIdx_lt hpos hlt x) (hin x hmem) (Or.inr hbelow) hupto (Nat.zero_add _)
    rw [hzero, Nat.sub_zero, Nat.mod_eq_of_lt ((edge_le hpos hlt x).trans_lt (hsamples x hmem))] at h
    rw [h, rankBucket, hx]
    rfl

end

end LatencyHistogram

open LatencyHistogram in
/-- **The percentiles** are the lower edges of the buckets of the `⌈n/2⌉`-th and the `⌈99n/100⌉`-th
smallest sample exactly when the rank needs no rounding or the next lower rank is in the same bucket,
where rank zero is in the first one. -/
theorem latency_percentiles_iff {bucketSize maxBuckets : ℕ} (hsize : 0 < bucketSize)
    (hpos : 0 < maxBuckets) (hlt : maxBuckets < wordSize) {samples : List ℕ} (hne : samples ≠ [])
    (hsamples : ∀ v ∈ samples, v < wordSize) (hlen : 99 * samples.length < wordSize)
    (hin : ∀ v ∈ samples, bucketIdx bucketSize maxBuckets v < STATS_LATENCY_MAX_BUCKETS) :
    (((fresh bucketSize maxBuckets).addAll samples).getP50 =
        rankBucket bucketSize maxBuckets samples ((samples.length + 1) / 2) * bucketSize ↔
      samples.length % 2 = 0 ∨
        rankBucket bucketSize maxBuckets samples (samples.length / 2) =
          rankBucket bucketSize maxBuckets samples (samples.length / 2 + 1)) ∧
    (((fresh bucketSize maxBuckets).addAll samples).getP99 =
        rankBucket bucketSize maxBuckets samples ((99 * samples.length + 99) / 100) * bucketSize ↔
      samples.length % 100 = 0 ∨
        rankBucket bucketSize maxBuckets samples (99 * samples.length / 100) =
          rankBucket bucketSize maxBuckets samples (99 * samples.length / 100 + 1)) := by
  have hn : 0 < samples.length := List.length_pos_iff.mpr hne
  have hfits : samples.length < wordSize := by omega
  have htotal : ((fresh bucketSize maxBuckets).addAll samples).totalSamples = samples.length := by
    rw [totalSamples_addAll, Nat.mod_eq_of_lt hfits]
  have hmax := (sizes_addAll (fresh bucketSize maxBuckets) samples).2
  have hscan : ∀ target ≤ samples.length,
      ((fresh bucketSize maxBuckets).addAll samples).scanBuckets target maxBuckets 0 0 =
        rankBucket bucketSize maxBuckets samples target * bucketSize := fun target htarget =>
    scanBuckets_eq hpos hlt hfits hsamples hin htarget
  -- equal edges are equal buckets
  have hedge : ∀ a b : ℕ, a * bucketSize = b * bucketSize ↔ a = b := fun a b =>
    Nat.mul_left_inj hsize.ne'
  constructor
  · rw [getP50, htotal, if_neg hn.ne', hmax]
    show LatencyHistogram.scanBuckets _ _ maxBuckets 0 0 = _ ↔ _
    rw [hscan _ (by omega), hedge]
    rcases Nat.mod_two_eq_zero_or_one samples.length with h | h
    · rw [show (samples.length + 1) / 2 = samples.length / 2 by omega]
      exact iff_of_true rfl (Or.inl h)
    · rw [show (samples.length + 1) / 2 = samples.length / 2 + 1 by omega]
      exact ⟨Or.inr, fun hor => hor.resolve_left (by omega)⟩
  · rw [getP99, htotal, if_neg hn.ne', hmax, Nat.mul_comm samples.length, Nat.mod_eq_of_lt hlen]
    show LatencyHistogram.scanBuckets _ _ maxBuckets 0 0 = _ ↔ _
    rw [hscan _ (by omega), hedge]
    rcases Nat.eq_zero_or_pos (samples.length % 100) with h | h
    · rw [show (99 * samples.length + 99) / 100 = 99 * samples.length / 100 by omega]
      exact iff_of_true rfl (Or.inl h)
    · -- 99 and 100 have no common factor
      have hrem : 99 * samples.length % 100 ≠ 0 := by omega
      rw [show (99 * samples.length + 99) / 100 = 99 * samples.length / 100 + 1 by omega]
      exact ⟨Or.inr, fun hor => hor.resolve_left (by omega)⟩

/-- Of three samples the median is the second smallest. -/
theorem latency_percentiles_three :
    (((LatencyHistogram.fresh 16 64).addAll [40, 20, 30]).getP50 =
        LatencyHistogram.rankBucket 16 64 [40, 20, 30] ((3 + 1) / 2) * 16 ↔
      3 % 2 = 0 ∨ LatencyHistogram.rankBucket 16 64 [40, 20, 30] (3 / 2) =
        LatencyHistogram.rankBucket 16 64 [40, 20, 30] (3 / 2 + 1)) ∧
    (((LatencyHistogram.fresh 16 64).addAll [40, 20, 30]).getP99 =
        LatencyHistogram.rankBucket 16 64 [40, 20, 30] ((99 * 3 + 99) / 100) * 16 ↔
      3 % 100 = 0 ∨ LatencyHistogram.rankBucket 16 64 [40, 20, 30] (99 * 3 / 100) =
        LatencyHistogram.rankBucket 16 64 [40, 20, 30] (99 * 3 / 100 + 1)) :=
  latency_percentiles_iff (by decide) (by decide) (by decide) (by decide) (by decide) (by decide)
    (by decide)

/-- The percentiles of one sample are looked for in the first bucket. -/
theorem latency_percentiles_one :
    ((LatencyHistogram.fresh 16 64).addAll [100]).getP50 = 0 ∧
      ((LatencyHistogram.fresh 16 64).addAll [100]).getP99 = 0 ∧
      LatencyHistogram.rankBucket 16 64 [100] ((1 + 1) / 2) * 16 = 96 ∧
      LatencyHistogram.rankBucket 16 64 [100] ((99 * 1 + 99) / 100) * 16 = 96 := by
  have hrank : LatencyHistogram.rankBucket 16 64 [100] 1 = 6 := by
    rw [LatencyHistogram.rankBucket, Ranks.kthSmallest, List.mergeSort_singleton]
    rfl
  refine ⟨by decide, by decide, ?_, ?_⟩
  · rw [hrank]
  · rw [hrank]

end Nomalloc
