import Nomalloc.Lib.ExchangeSort
import Nomalloc.Utils.Math

/-!
# `utils/time.h`: the median of recorded latencies

The first `sample_capacity` values are kept as samples; `latency_stats_get_p50` sorts a copy of them
and returns the one in the middle.  The memory for the samples is asked for in bytes, in 64-bit
arithmetic, and used unseen: a store or a copy that it has no room for, or that goes through `NULL`,
is `none`.  The memory for the copy is taken to be granted.

* `recorded_after`     what the fields hold: the samples are the first values recorded;
* `p50_is_median_iff`  the median is the sample of rank `m / 2`, of `m` samples, exactly when the
                       memory is granted and has room for them.
-/

namespace Nomalloc

/-- A block of words, with the bytes that `malloc` was asked for. -/
structure SampleBlock where
  bytes : ℕ
  words : ℕ → ℕ

/-- `latency_stats_t` -/
structure LatencyStats where
  minNs : ℕ
  maxNs : ℕ
  totalNs : ℕ
  count : ℕ
  samples : Option SampleBlock
  sampleCapacity : ℕ
  sampleCount : ℕ

/-- `latency_stats_init`; `mem` is the answer of `malloc`, with what the new memory holds. -/
def latencyStatsInit (sampleCapacity : ℕ) (mem : Option (ℕ → ℕ)) : LatencyStats where
  -- `UINT64_MAX`
  minNs := wordSize - 1
  maxNs := 0
  totalNs := 0
  count := 0
  samples := mem.map (SampleBlock.mk (sampleCapacity * 8 % wordSize))
  sampleCapacity := sampleCapacity
  sampleCount := 0

/-- `samples[i] = x` -/
def SampleBlock.store (b : SampleBlock) (i x : ℕ) : Option SampleBlock :=
  if (i + 1) * 8 ≤ b.bytes then some { b with words := Function.update b.words i x } else none

/-- `latency_stats_record` -/
def latencyStatsRecord (stats : LatencyStats) (latencyNs : ℕ) : Option LatencyStats :=
  let stats := { stats with
    minNs := if latencyNs < stats.minNs then latencyNs else stats.minNs
    maxNs := if stats.maxNs < latencyNs then latencyNs else stats.maxNs
    totalNs := addW stats.totalNs latencyNs
    count := addW stats.count 1 }
  if stats.sampleCount < stats.sampleCapacity then
    (stats.samples.bind (·.store stats.sampleCount latencyNs)).map fun b =>
      { stats with samples := some b, sampleCount := stats.sampleCount + 1 }
  else some stats

/-- The copy of the samples that `latency_stats_get_p50` makes, after its loops. -/
def LatencyStats.sorted (stats : LatencyStats) : Option (ℕ → ℕ) :=
  stats.samples.bind fun b =>
    if stats.sampleCount * 8 ≤ b.bytes then some (ExchangeSort.sort stats.sampleCount b.words)
    else none

/-- `latency_stats_get_p50` -/
def latencyStatsGetP50 (stats : LatencyStats) : Option ℕ :=
  if stats.sampleCount = 0 then some 0
  else
    let mid := stats.sampleCount / 2
    stats.sorted.map (· mid)

/-- New statistics, after `values` have been recorded. -/
def latencyStatsAfter (sampleCapacity : ℕ) (mem : Option (ℕ → ℕ)) (values : List ℕ) :
    Option LatencyStats :=
  values.foldlM latencyStatsRecord (latencyStatsInit sampleCapacity mem)

/-- There is room for the samples of `n` values. -/
def SamplesFit (capacity n : ℕ) : Prop := min n capacity * 8 ≤ capacity * 8 % wordSize

instance (capacity n : ℕ) : Decidable (SamplesFit capacity n) :=
  inferInstanceAs (Decidable (_ ≤ _))

/-- What the fields hold after `values` have been recorded. -/
structure Recorded (capacity : ℕ) (values : List ℕ) (stats : LatencyStats) : Prop where
  minNs : stats.minNs = values.foldl min (wordSize - 1)
  maxNs : stats.maxNs = values.foldl max 0
  totalNs : stats.totalNs = values.sum % wordSize
  count : stats.count = values.length % wordSize
  sampleCapacity : stats.sampleCapacity = capacity
  sampleCount : stats.sampleCount = min values.length capacity
  fits : SamplesFit capacity values.length
  samples : ∃ b, stats.samples = some b ∧ b.bytes = capacity * 8 % wordSize ∧
    ExchangeSort.words stats.sampleCount b.words = values.take capacity

section
variable {capacity : ℕ} {stats : LatencyStats} {values : List ℕ}

theorem SamplesFit.mono {m n : ℕ} (h : SamplesFit capacity n) (hmn : m ≤ n) :
    SamplesFit capacity m :=
  (Nat.mul_le_mul_right 8 (min_le_min_right capacity hmn)).trans h

/-- A value is recorded where there is room for its sample. -/
theorem Recorded.record (h : Recorded capacity values stats) (v : ℕ)
    (hfits : SamplesFit capacity (values.length + 1)) :
    ∃ stats', latencyStatsRecord stats v = some stats' ∧
      Recorded capacity (values ++ [v]) stats' := by
  have hcount := h.sampleCount
  have hcap := h.sampleCapacity
  obtain ⟨b, hb, hbytes, hwords⟩ := h.samples
  have hlen : (values ++ [v]).length = values.length + 1 := by
    rw [List.length_append, List.length_singleton]
  have hmin : (if v < stats.minNs then v else stats.minNs) =
      (values ++ [v]).foldl min (wordSize - 1) := by
    rw [List.foldl_append, ← h.minNs, List.foldl_cons, List.foldl_nil]
    split_ifs <;> omega
  have hmax : (if stats.maxNs < v then v else stats.maxNs) = (values ++ [v]).foldl max 0 := by
    rw [List.foldl_append, ← h.maxNs, List.foldl_cons, List.foldl_nil]
    split_ifs <;> omega
  have htotal : addW stats.totalNs v = (values ++ [v]).sum % wordSize := by
    rw [addW, h.totalNs, Nat.mod_add_mod, List.sum_append, List.sum_singleton]
  have hcount' : addW stats.count 1 = (values ++ [v]).length % wordSize := by
    rw [addW, h.count, Nat.mod_add_mod, hlen]
  unfold latencyStatsRecord
  dsimp only
  by_cases hroom : stats.sampleCount < stats.sampleCapacity
  · have hlt : values.length < capacity := by omega
    have hstore : b.store stats.sampleCount v =
        some { b with words := Function.update b.words stats.sampleCount v } := by
      refine if_pos ?_
      unfold SamplesFit at hfits
      omega
    rw [if_pos hroom, hb, Option.bind_some, hstore]
    refine ⟨_, rfl, hmin, hmax, htotal, hcount', hcap, ?_, by rwa [hlen], _, rfl, hbytes, ?_⟩
    · show stats.sampleCount + 1 = _
      rw [hlen]
      omega
    · show ExchangeSort.words (stats.sampleCount + 1) (Function.update b.words _ v) = _
      rw [ExchangeSort.words_update, hwords, List.take_of_length_le hlt.le,
        List.take_of_length_le (by omega)]
  · rw [if_neg hroom]
    have hge : capacity ≤ values.length := by omega
    refine ⟨_, rfl, hmin, hmax, htotal, hcount', hcap, ?_, by rwa [hlen], b, hb, hbytes, ?_⟩
    · show stats.sampleCount = _
      rw [hlen]
      omega
    · show ExchangeSort.words stats.sampleCount b.words = _
      rw [hwords, List.take_append_of_le_length hge]

/-- Where there is none, the store is past the block. -/
theorem Recorded.record_none (h : Recorded capacity values stats) (v : ℕ)
    (hfits : ¬ SamplesFit capacity (values.length + 1)) : latencyStatsRecord stats v = none := by
  have hcount := h.sampleCount
  have hcap := h.sampleCapacity
  have hroom := h.fits
  obtain ⟨b, hb, hbytes, -⟩ := h.samples
  unfold SamplesFit at hfits hroom
  have hstore : b.store stats.sampleCount v = none := if_neg (by omega)
  unfold latencyStatsRecord
  dsimp only
  rw [if_pos (by omega), hb, Option.bind_some, hstore]
  rfl

/-- **What is recorded.** -/
theorem recorded_after (capacity : ℕ) (buf : ℕ → ℕ) (values : List ℕ) :
    (SamplesFit capacity values.length → ∃ stats,
      latencyStatsAfter capacity (some buf) values = some stats ∧ Recorded capacity values stats) ∧
    (¬ SamplesFit capacity values.length → latencyStatsAfter capacity (some buf) values = none) := by
  unfold latencyStatsAfter
  induction values using List.reverseRecOn with
  | nil =>
    have hfits : SamplesFit capacity 0 := by
      unfold SamplesFit
      omega
    refine ⟨fun _ => ⟨_, rfl, rfl, rfl, rfl, rfl, rfl, (Nat.zero_min _).symm, hfits, _, rfl, rfl,
      List.take_nil.symm⟩, fun hno => absurd hfits hno⟩
  | append_singleton values v ih =>
    rw [List.foldlM_append, List.length_append, List.length_singleton]
    by_cases hold : SamplesFit capacity values.length
    · obtain ⟨stats, hstats, h⟩ := ih.1 hold
      rw [hstats]
      refine ⟨fun hfits => ?_, fun hno => ?_⟩
      · obtain ⟨stats', hrecord, h'⟩ := h.record v hfits
        exact ⟨stats', by simp [hrecord], h'⟩
      · simp [h.record_none v hno]
    · rw [ih.2 hold]
      exact ⟨fun hfits => absurd (hfits.mono (Nat.le_succ _)) hold, fun _ => rfl⟩

/-- Without memory the first value cannot be recorded. -/
theorem latencyStatsAfter_null (hcap : 1 ≤ capacity) (hne : values ≠ []) :
    latencyStatsAfter capacity none values = none := by
  obtain ⟨v, rest, rfl⟩ := List.exists_cons_of_ne_nil hne
  have hfirst : latencyStatsRecord (latencyStatsInit capacity none) v = none := by
    unfold latencyStatsRecord
    dsimp only
    have hroom : (latencyStatsInit capacity none).sampleCount <
        (latencyStatsInit capacity none).sampleCapacity := hcap
    rw [if_pos hroom]
    rfl
  unfold latencyStatsAfter
  rw [List.foldlM_cons, hfirst]
  rfl

/-- The copy is sorted, and `latency_stats_get_p50` returns the value in its middle. -/
structure Median (values : List ℕ) (m : ℕ) (stats : LatencyStats) : Prop where
  median : ∃ x, ((values.take m).mergeSort (· ≤ ·))[m / 2]? = some x ∧
    latencyStatsGetP50 stats = some x
  sorted : ∃ copy, stats.sorted = some copy ∧ (ExchangeSort.words m copy).Pairwise (· ≤ ·) ∧
    (ExchangeSort.words m copy).Perm (values.take m)

theorem Recorded.median (h : Recorded capacity values stats) (hcap : 1 ≤ capacity)
    (hne : values ≠ []) : Median values (min values.length capacity) stats := by
  obtain ⟨b, hb, hbytes, hwords⟩ := h.samples
  have hfits := h.fits
  have hcount := h.sampleCount
  generalize hm : min values.length capacity = m at hcount
  have hpos : 0 < m := hm ▸ lt_min (List.length_pos_of_ne_nil hne) hcap
  have htake : ExchangeSort.words m b.words = values.take m := by
    rw [← hcount, hwords, hcount, List.take_eq_take_iff]
    omega
  have hsorted : stats.sorted = some (ExchangeSort.sort m b.words) := by
    unfold LatencyStats.sorted
    rw [hb, Option.bind_some, hcount]
    refine if_pos ?_
    unfold SamplesFit at hfits
    omega
  refine ⟨⟨ExchangeSort.sort m b.words (m / 2), ?_, ?_⟩, _, hsorted,
    ExchangeSort.words_sort_pairwise m _, ?_⟩
  · rw [← htake, ← ExchangeSort.words_sort]
    exact ExchangeSort.getElem?_words (Nat.div_lt_self hpos Nat.one_lt_two)
  · unfold latencyStatsGetP50
    rw [if_neg (by omega), hsorted, hcount]
    rfl
  · rw [← htake]
    exact ExchangeSort.words_sort_perm m _

end

/-- **The median.**  After the values have been recorded, `latency_stats_get_p50` sorts the first
`m` of them, as many as there is capacity for, and returns the one of rank `m / 2`, exactly when
there is memory, and `m` samples fit the bytes that were asked for. -/
theorem p50_is_median_iff {capacity : ℕ} (hcap : 1 ≤ capacity) (mem : Option (ℕ → ℕ))
    {values : List ℕ} (hne : values ≠ []) :
    (∃ stats, latencyStatsAfter capacity mem values = some stats ∧
      Median values (min values.length capacity) stats) ↔
    mem.isSome ∧ min values.length capacity * 8 ≤ capacity * 8 % wordSize := by
  cases mem with
  | none =>
    rw [latencyStatsAfter_null hcap hne]
    exact iff_of_false (fun ⟨_, h, _⟩ => by cases h) (fun h => by cases h.1)
  | some buf =>
    obtain ⟨hfits, hpast⟩ := recorded_after capacity buf values
    constructor
    · rintro ⟨stats, hstats, -⟩
      refine ⟨rfl, by_contra fun hno => ?_⟩
      rw [hpast hno] at hstats
      cases hstats
    · rintro ⟨-, hroom⟩
      obtain ⟨stats, hstats, h⟩ := hfits hroom
      exact ⟨stats, hstats, h.median hcap hne⟩

/-- Four values, of which the last finds no room. -/
theorem p50_is_median_four :
    (∃ stats, latencyStatsAfter 3 (some fun _ => 0) [9, 2, 7, 4] = some stats ∧
      Median [9, 2, 7, 4] (min [9, 2, 7, 4].length 3) stats) ↔
    (some fun _ : ℕ => 0).isSome ∧ min [9, 2, 7, 4].length 3 * 8 ≤ 3 * 8 % wordSize :=
  p50_is_median_iff (by decide) (some fun _ => 0) (by decide)

/-- For `2^61 + 1` samples eight bytes are asked for, and the second sample is past them. -/
theorem p50_capacity_wraps : ¬ ∀ (capacity : ℕ) (buf : ℕ → ℕ) (values : List ℕ),
    1 ≤ capacity → capacity < wordSize → values ≠ [] →
    ∃ stats, latencyStatsAfter capacity (some buf) values = some stats ∧
      Median values (min values.length capacity) stats := by
  intro hall
  obtain ⟨stats, hstats, -⟩ := hall (2 ^ 61 + 1) (fun _ => 0) [1, 2] (by decide) (by decide)
    (by decide)
  rw [(recorded_after (2 ^ 61 + 1) (fun _ => 0) [1, 2]).2 (by decide +kernel)] at hstats
  cases hstats

end Nomalloc
