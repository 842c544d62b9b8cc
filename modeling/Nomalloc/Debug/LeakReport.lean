import Mathlib.Data.List.GetD
import Nomalloc.Debug.LeakDetector
import Nomalloc.Lib.ForEach

/-!
# The report of leaks

`generate_leak_report` groups the records by size and stack trace in a table of 64 entries.  The
loop ends when the table is full, before it looks at the next record.

* `generateLeakReport`
* `LeakGroups`          the entries are the patterns of the records seen, each once;
* `leak_report_iff`     the report is that of all the records exactly when the records but the last
                        leave an entry free, and the totals stay below `2^64`.
-/

namespace Nomalloc

def LEAK_DETECTOR_REPORT_SIZE : ℕ := 64

/-- `struct leak_report_entry`; the frames stored are as many as the depth says, or 16. -/
structure LeakReportEntry where
  size : ℕ
  count : ℕ
  totalBytes : ℕ
  firstSeen : ℕ
  lastSeen : ℕ
  commonStackTrace : List ℕ
  stackDepth : ℕ
deriving DecidableEq, Repr

/-- `struct leak_report`; `num_entries` is the length of `entries`. -/
structure LeakReport where
  entries : List LeakReportEntry
  totalLeakedBytes : ℕ
  totalLeakedObjects : ℕ
deriving DecidableEq, Repr

/-- The test of the inner loops. -/
def leakEntryMatches (record : AllocationRecord) (entry : LeakReportEntry) : Bool :=
  entry.size == record.size && entry.stackDepth == record.stackTrace.length &&
    (List.range (min record.stackTrace.length LEAK_DETECTOR_STACK_DEPTH)).all fun j =>
      entry.commonStackTrace.getD j 0 == record.stackTrace.getD j 0

/-- A record is added to the first entry that matches, or to a new one. -/
def leakCountRecord (record : AllocationRecord) : List LeakReportEntry → List LeakReportEntry
  | [] =>
    [{ size := record.size
       count := 1
       totalBytes := record.size
       firstSeen := record.timestamp
       lastSeen := record.timestamp
       commonStackTrace := record.stackTrace.take LEAK_DETECTOR_STACK_DEPTH
       stackDepth := record.stackTrace.length }]
  | entry :: entries =>
    if leakEntryMatches record entry then
      { entry with
        count := addW entry.count 1
        totalBytes := addW entry.totalBytes record.size
        lastSeen := record.timestamp } :: entries
    else entry :: leakCountRecord record entries

/-- The body of the loop, past the test that ends it. -/
def leakReportRecord (report : LeakReport) (record : AllocationRecord) : LeakReport where
  entries := leakCountRecord record report.entries
  totalLeakedBytes := addW report.totalLeakedBytes record.size
  totalLeakedObjects := addW report.totalLeakedObjects 1

/-- `generate_leak_report`, for the records on the allocation list. -/
def generateLeakReport (records : List AllocationRecord) : LeakReport :=
  foldUntil (fun report => LEAK_DETECTOR_REPORT_SIZE ≤ report.entries.length) leakReportRecord
    ⟨[], 0, 0⟩ records

/-- The pattern of a record: its size and its stack trace. -/
def AllocationRecord.pattern (record : AllocationRecord) : ℕ × ℕ × List ℕ :=
  (record.size, record.stackTrace.length, record.stackTrace.take LEAK_DETECTOR_STACK_DEPTH)

def LeakReportEntry.pattern (entry : LeakReportEntry) : ℕ × ℕ × List ℕ :=
  (entry.size, entry.stackDepth, entry.commonStackTrace)

/-- The number of patterns of the records. -/
def numPatterns (records : List AllocationRecord) : ℕ :=
  (records.map AllocationRecord.pattern).toFinset.card

/-! ## the entries -/

/-- The frames of an entry are those its depth says. -/
def LeakReportEntry.Framed (entry : LeakReportEntry) : Prop :=
  entry.commonStackTrace.length = min entry.stackDepth LEAK_DETECTOR_STACK_DEPTH

section
variable {record : AllocationRecord} {entry : LeakReportEntry} {entries : List LeakReportEntry}

theorem leakEntryMatches_iff (h : entry.Framed) :
    leakEntryMatches record entry = true ↔ entry.pattern = record.pattern := by
  unfold leakEntryMatches LeakReportEntry.pattern AllocationRecord.pattern
  rw [Bool.and_eq_true, Bool.and_eq_true, beq_iff_eq, beq_iff_eq, List.all_eq_true, Prod.mk.injEq,
    Prod.mk.injEq, and_assoc]
  refine and_congr_right fun _ => and_congr_right fun hdepth => ?_
  have hlen : entry.commonStackTrace.length =
      (record.stackTrace.take LEAK_DETECTOR_STACK_DEPTH).length := by
    rw [h, hdepth, List.length_take, Nat.min_comm]
  constructor
  · intro hall
    refine List.ext_getElem hlen fun j h1 h2 => ?_
    have hj : j < min record.stackTrace.length LEAK_DETECTOR_STACK_DEPTH := by
      rwa [List.length_take, Nat.min_comm] at h2
    have heq := hall j (List.mem_range.mpr hj)
    rw [beq_iff_eq, List.getD_eq_getElem _ _ h1,
      List.getD_eq_getElem _ _ (lt_of_lt_of_le hj (min_le_left _ _))] at heq
    rw [heq, List.getElem_take]
  · intro heq j hj
    have hlt := List.mem_range.mp hj
    rw [heq, beq_iff_eq, List.getD_eq_getElem?_getD, List.getD_eq_getElem?_getD,
      List.getElem?_take_of_lt (lt_of_lt_of_le hlt (min_le_right _ _))]

/-- The entries after a record has been added: the one of its pattern, or one more. -/
theorem leakCountRecord_patterns (hframed : ∀ e ∈ entries, e.Framed) :
    (∀ e ∈ leakCountRecord record entries, e.Framed) ∧
      (leakCountRecord record entries).map LeakReportEntry.pattern =
        if record.pattern ∈ entries.map LeakReportEntry.pattern then
          entries.map LeakReportEntry.pattern
        else entries.map LeakReportEntry.pattern ++ [record.pattern] := by
  induction entries with
  | nil =>
    refine ⟨fun e he => ?_, rfl⟩
    rw [List.mem_singleton.mp he]
    exact (List.length_take).trans (Nat.min_comm _ _)
  | cons entry entries ih =>
    obtain ⟨hentry, hrest⟩ := List.forall_mem_cons.mp hframed
    obtain ⟨ihframed, ihmap⟩ := ih hrest
    have hmatch := @leakEntryMatches_iff record entry hentry
    unfold leakCountRecord
    by_cases hm : leakEntryMatches record entry = true
    · rw [if_pos hm, List.map_cons, List.map_cons,
        if_pos (List.mem_cons.mpr (Or.inl (hmatch.mp hm).symm))]
      exact ⟨List.forall_mem_cons.mpr ⟨hentry, hrest⟩, rfl⟩
    · have hne : record.pattern ≠ entry.pattern := fun he => hm (hmatch.mpr he.symm)
      rw [if_neg hm, List.map_cons, List.map_cons, ihmap]
      refine ⟨List.forall_mem_cons.mpr ⟨hentry, ihframed⟩, ?_⟩
      by_cases hin : record.pattern ∈ entries.map LeakReportEntry.pattern
      · rw [if_pos hin, if_pos (List.mem_cons_of_mem _ hin)]
      · rw [if_neg hin, if_neg fun hcons => (List.mem_cons.mp hcons).elim hne hin]
        rfl

/-- The totals of the entries grow by the record, as long as they do not wrap. -/
theorem leakCountRecord_totals
    (hcount : (entries.map LeakReportEntry.count).sum + 1 < wordSize)
    (hbytes : (entries.map LeakReportEntry.totalBytes).sum + record.size < wordSize) :
    ((leakCountRecord record entries).map LeakReportEntry.count).sum =
        (entries.map LeakReportEntry.count).sum + 1 ∧
      ((leakCountRecord record entries).map LeakReportEntry.totalBytes).sum =
        (entries.map LeakReportEntry.totalBytes).sum + record.size := by
  induction entries with
  | nil => exact ⟨rfl, Nat.add_comm record.size 0⟩
  | cons entry entries ih =>
    rw [List.map_cons, List.sum_cons] at hcount hbytes
    unfold leakCountRecord
    split_ifs with hm
    · have hone : addW entry.count 1 = entry.count + 1 := addW_eq (by omega)
      have hsize : addW entry.totalBytes record.size = entry.totalBytes + record.size :=
        addW_eq (by omega)
      rw [hone, hsize]
      simp only [List.map_cons, List.sum_cons]
      exact ⟨by omega, by omega⟩
    · obtain ⟨ihcount, ihbytes⟩ := ih (by omega) (by omega)
      simp only [List.map_cons, List.sum_cons, ihcount, ihbytes]
      exact ⟨by omega, by omega⟩

end

/-! ## the loop -/

/-- What the report says of the records seen. -/
structure LeakGroups (seen : List AllocationRecord) (report : LeakReport) : Prop where
  framed : ∀ e ∈ report.entries, e.Framed
  once : (report.entries.map LeakReportEntry.pattern).Nodup
  patterns : (report.entries.map LeakReportEntry.pattern).toFinset =
    (seen.map AllocationRecord.pattern).toFinset
  objects : report.totalLeakedObjects = seen.length % wordSize
  bytes : report.totalLeakedBytes = (seen.map AllocationRecord.size).sum % wordSize

section
variable {seen : List AllocationRecord} {report : LeakReport}

theorem LeakGroups.num_entries (h : LeakGroups seen report) :
    report.entries.length = numPatterns seen := by
  unfold numPatterns
  rw [← h.patterns, List.toFinset_card_of_nodup h.once, List.length_map]

/-- **Step lemma.** -/
theorem LeakGroups.record (h : LeakGroups seen report) (record : AllocationRecord) :
    LeakGroups (seen ++ [record]) (leakReportRecord report record) := by
  obtain ⟨hframed, hmap⟩ := @leakCountRecord_patterns record _ h.framed
  have hin : record.pattern ∈ report.entries.map LeakReportEntry.pattern ↔
      record.pattern ∈ seen.map AllocationRecord.pattern := by
    rw [← List.mem_toFinset, h.patterns, List.mem_toFinset]
  have hpatterns : (seen ++ [record]).map AllocationRecord.pattern =
      seen.map AllocationRecord.pattern ++ [record.pattern] := List.map_append
  refine ⟨hframed, ?_, ?_, ?_, ?_⟩
  · show ((leakCountRecord record report.entries).map LeakReportEntry.pattern).Nodup
    rw [hmap]
    split_ifs with hold
    · exact h.once
    · exact (List.perm_append_singleton _ _).nodup_iff.mpr (List.nodup_cons.mpr ⟨hold, h.once⟩)
  · show ((leakCountRecord record report.entries).map LeakReportEntry.pattern).toFinset = _
    rw [hmap, hpatterns, List.toFinset_append, ← h.patterns]
    split_ifs with hold
    · refine (Finset.union_eq_left.mpr fun x hx => ?_).symm
      rw [List.mem_toFinset, List.mem_singleton] at hx
      rw [hx]
      exact List.mem_toFinset.mpr hold
    · rw [List.toFinset_append]
  · show addW report.totalLeakedObjects 1 = _
    rw [h.objects, List.length_append, List.length_singleton]
    exact Nat.mod_add_mod _ _ _
  · show addW report.totalLeakedBytes record.size = _
    rw [h.bytes, List.map_append, List.sum_append, List.map_singleton, List.sum_singleton]
    exact Nat.mod_add_mod _ _ _

theorem leakGroups_foldl (records : List AllocationRecord) :
    LeakGroups records (records.foldl leakReportRecord ⟨[], 0, 0⟩) := by
  induction records using List.reverseRecOn with
  | nil => exact ⟨fun e he => absurd he List.not_mem_nil, List.nodup_nil, rfl, rfl, rfl⟩
  | append_singleton records record ih =>
    rw [List.foldl_append]
    exact ih.record record

/-- The entries add up, when the totals of the records do not wrap. -/
theorem leakTotals_foldl {records : List AllocationRecord} (hlen : records.length < wordSize)
    (hbytes : (records.map AllocationRecord.size).sum < wordSize) :
    ((records.foldl leakReportRecord ⟨[], 0, 0⟩).entries.map LeakReportEntry.count).sum =
        records.length ∧
      ((records.foldl leakReportRecord ⟨[], 0, 0⟩).entries.map LeakReportEntry.totalBytes).sum =
        (records.map AllocationRecord.size).sum := by
  induction records using List.reverseRecOn with
  | nil => exact ⟨rfl, rfl⟩
  | append_singleton records record ih =>
    rw [List.length_append, List.length_singleton] at hlen
    rw [List.map_append, List.sum_append, List.map_singleton, List.sum_singleton] at hbytes
    obtain ⟨ihcount, ihbytes⟩ := ih (by omega) (by omega)
    rw [List.foldl_append, List.length_append, List.map_append, List.sum_append]
    have htotals := @leakCountRecord_totals record
      (records.foldl leakReportRecord ⟨[], 0, 0⟩).entries (by omega) (by omega)
    rw [ihcount, ihbytes] at htotals
    exact htotals

end

/-- The report is that of all the records. -/
structure LeakReport.Complete (report : LeakReport) (records : List AllocationRecord) : Prop where
  objects : report.totalLeakedObjects = records.length
  bytes : report.totalLeakedBytes = (records.map AllocationRecord.size).sum
  entries : numPatterns records ≤ LEAK_DETECTOR_REPORT_SIZE →
    (report.entries.map LeakReportEntry.count).sum = report.totalLeakedObjects ∧
    (report.entries.map LeakReportEntry.totalBytes).sum = report.totalLeakedBytes ∧
    (report.entries.map LeakReportEntry.pattern).Nodup ∧
    (report.entries.map LeakReportEntry.pattern).toFinset =
      (records.map AllocationRecord.pattern).toFinset

/-- More records have more patterns. -/
theorem numPatterns_le_append (as bs : List AllocationRecord) :
    numPatterns as ≤ numPatterns (as ++ bs) := by
  unfold numPatterns
  rw [List.map_append, List.toFinset_append]
  exact Finset.card_le_card Finset.subset_union_left

/-- The loop comes to its end exactly when the table has room for the last record. -/
theorem generateLeakReport_all {records as bs : List AllocationRecord} (hsplit : records = as ++ bs)
    (hgo : ∀ p q, as = p ++ q → q ≠ [] → numPatterns p < LEAK_DETECTOR_REPORT_SIZE)
    (hstop : bs ≠ [] → LEAK_DETECTOR_REPORT_SIZE ≤ numPatterns as) :
    bs = [] ↔ numPatterns records.dropLast < LEAK_DETECTOR_REPORT_SIZE := by
  constructor
  · rintro rfl
    rw [List.append_nil] at hsplit
    rw [hsplit]
    rcases List.eq_nil_or_concat as with rfl | ⟨p, r, rfl⟩
    · exact (by decide : numPatterns [] < LEAK_DETECTOR_REPORT_SIZE)
    · rw [List.concat_eq_append] at hgo ⊢
      rw [List.dropLast_concat]
      exact hgo p [r] rfl (List.cons_ne_nil r [])
  · intro hroom
    by_contra hne
    have hle := numPatterns_le_append as bs.dropLast
    rw [← List.dropLast_append_of_ne_nil hne, ← hsplit] at hle
    exact absurd (hstop hne) (not_le.mpr (hle.trans_lt hroom))

/-- **The report of leaks** is that of all the records exactly when the records but the last leave an
entry free, and the totals stay below `2^64`. -/
theorem leak_report_iff (records : List AllocationRecord) :
    (generateLeakReport records).Complete records ↔
      numPatterns records.dropLast < LEAK_DETECTOR_REPORT_SIZE ∧ records.length < wordSize ∧
        (records.map AllocationRecord.size).sum < wordSize := by
  obtain ⟨as, bs, hsplit, hfold, hgo, hstop⟩ := foldUntil_prefix
    (fun report : LeakReport => (LEAK_DETECTOR_REPORT_SIZE ≤ report.entries.length : Bool))
    leakReportRecord ⟨[], 0, 0⟩ records
  have hgroups := leakGroups_foldl as
  have hall := generateLeakReport_all hsplit
    (fun p q hpq hq => by
      have hno := hgo p q hpq hq
      rw [(leakGroups_foldl p).num_entries] at hno
      exact not_le.mp (of_decide_eq_false hno))
    (fun hne => by
      have hyes := hstop hne
      rw [hgroups.num_entries] at hyes
      exact of_decide_eq_true hyes)
  have hreport : generateLeakReport records = as.foldl leakReportRecord ⟨[], 0, 0⟩ := hfold
  rw [← hall, hreport]
  have hword : 0 < wordSize := by decide
  constructor
  · intro h
    have hobjects := h.objects
    rw [hgroups.objects, hsplit, List.length_append] at hobjects
    have hle := Nat.mod_le as.length wordSize
    have hlt := Nat.mod_lt as.length hword
    have hnone : bs = [] := List.length_eq_zero_iff.mp (by omega)
    have hbytes := h.bytes
    rw [hgroups.bytes] at hbytes
    rw [hsplit, hnone, List.append_nil] at hbytes ⊢
    refine ⟨rfl, by omega, ?_⟩
    rw [← hbytes]
    exact Nat.mod_lt _ hword
  · rintro ⟨hnone, hlen, hbytes⟩
    rw [hsplit, hnone, List.append_nil] at hlen hbytes ⊢
    obtain ⟨hcount, htotal⟩ := leakTotals_foldl hlen hbytes
    have hobjects := hgroups.objects.trans (Nat.mod_eq_of_lt hlen)
    have htotals := hgroups.bytes.trans (Nat.mod_eq_of_lt hbytes)
    exact ⟨hobjects, htotals, fun _ => ⟨hcount.trans hobjects.symm, htotal.trans htotals.symm,
      hgroups.once, hgroups.patterns⟩⟩

/-- A record of `size` bytes without a stack trace. -/
def leakRecordOf (size : ℕ) : AllocationRecord := ⟨0x1000, size, 0, 0, 1, 0, []⟩

/-- 64 sizes, and one of them again: the last record is not counted. -/
theorem leak_report_full : ¬ ∀ records, (generateLeakReport records).Complete records := by
  intro hall
  have hobjects := (hall ((List.range 64).map leakRecordOf ++ [leakRecordOf 0])).objects
  revert hobjects
  decide +kernel

end Nomalloc
