import WMonitor.Proofs.Ingest
import WMonitor.Proofs.Store
import WMonitor.Report

/-!
# What a report is computed from

A report reads the metrics of a tenant from the start of its period on, through a query that returns
the first `defaultQueryLimit` rows in time. So it is computed from the rows of the period when there
are no more of them than that, and when none lies in the second of the start but before it.
-/

namespace WMonitor

/-- The metric is of the tenant and lies between `start` and `stop`, if there is one. -/
def within (tenant : String) (start : ℤ) (stop : Option ℤ) (r : Stored MetricRecord) : Bool :=
  r.row.tenantID = tenant && start ≤ r.row.timestamp * second
    && stop.all (r.row.timestamp * second ≤ ·)

/-- As `within`, from the beginning of the second of `start`. -/
def reaches (tenant : String) (start : ℤ) (stop : Option ℤ) (r : Stored MetricRecord) : Bool :=
  r.row.tenantID = tenant && unix start ≤ r.row.timestamp
    && stop.all (r.row.timestamp * second ≤ ·)

namespace HubDB

/-- The metrics of the tenant in the period. -/
def windowRows (tenant : String) (start : ℤ) (stop : Option ℤ) (db : HubDB) : List MetricRow :=
  ((db.metrics.filter (within tenant start stop)).insertionSort metricColumns.Before).map scanMetric

/-- The metrics a report of the period works on. -/
def readRows (tenant : String) (start : ℤ) (stop : Option ℤ) (db : HubDB) : List MetricRow :=
  (((db.metrics.filter (reaches tenant start stop)).insertionSort metricColumns.Before).take
    defaultQueryLimit).map scanMetric

/-- The period has no more rows than a query returns, and none before it in its first second. -/
structure Covered (tenant : String) (start : ℤ) (stop : Option ℤ) (db : HubDB) : Prop where
  few : (db.windowRows tenant start stop).length ≤ defaultQueryLimit
  whole : ∀ r ∈ db.metrics, reaches tenant start stop r = true →
    start ≤ r.row.timestamp * second

end HubDB

variable {tenant : String} {start stop : ℤ} {upTo : Option ℤ} {db : HubDB}

theorem le_unix_iff {n : ℤ} : unix start ≤ n ↔ start < (n + 1) * second := by
  unfold unix second
  omega

theorem reaches_iff {r : Stored MetricRecord} :
    reaches tenant start upTo r = true ↔ r.row.tenantID = tenant
      ∧ unix start ≤ r.row.timestamp ∧ ∀ t ∈ upTo, r.row.timestamp * second ≤ t := by
  cases upTo <;> simp [reaches, and_assoc]

theorem within_iff {r : Stored MetricRecord} :
    within tenant start upTo r = true
      ↔ reaches tenant start upTo r = true ∧ start ≤ r.row.timestamp * second := by
  have hle : start ≤ r.row.timestamp * second → unix start ≤ r.row.timestamp := by
    rw [le_unix_iff]
    unfold second
    omega
  simp only [within, reaches, Bool.and_eq_true, decide_eq_true_eq]
  constructor
  · rintro ⟨⟨h₁, h₂⟩, h₃⟩
    exact ⟨⟨⟨h₁, hle h₂⟩, h₃⟩, h₂⟩
  · rintro ⟨⟨⟨h₁, -⟩, h₃⟩, h₂⟩
    exact ⟨⟨h₁, h₂⟩, h₃⟩

theorem queryMetrics_eq (ht : requireTenant tenant = true) :
    db.queryMetrics start tenant = .ok (db.readRows tenant start none) := by
  unfold HubDB.queryMetrics HubDB.queryMetricsQ HubDB.selectMetrics
  rw [if_pos ht]
  unfold HubDB.readRows Columns.select Columns.ordered
  congr 4
  refine List.filter_congr fun r _ => ?_
  rw [Bool.eq_iff_iff]
  rw [Columns.meets_iff, reaches_iff]
  simp [metricColumns, and_comm]

theorem assessedRows_eq (ht : requireTenant tenant = true) :
    assessedRows start stop tenant db = .ok (db.readRows tenant start (some stop)) := by
  unfold assessedRows
  rw [queryMetrics_eq ht]
  show Except.ok _ = Except.ok _
  unfold HubDB.readRows
  rw [List.filter_map, filter_take (List.pairwise_insertionSort _ _), filter_insertionSort,
    List.filter_filter]
  · congr 4
    refine List.filter_congr fun r _ => ?_
    rw [Bool.eq_iff_iff, Bool.and_eq_true, reaches_iff, reaches_iff]
    simp only [Function.comp, decide_eq_true_eq]
    simp [scanMetric, and_comm, and_left_comm]
  · intro a b hab hb
    simp only [Function.comp, decide_eq_true_eq] at hb ⊢
    refine le_trans ?_ hb
    simp only [scanMetric, metricColumns, Columns.Before, second] at hab ⊢
    omega

theorem le_of_mem_windowRows {m : MetricRow} (h : m ∈ db.windowRows tenant start upTo) :
    start ≤ m.timestamp := by
  obtain ⟨r, hr, rfl⟩ := List.mem_map.1 h
  rw [List.mem_insertionSort] at hr
  exact (within_iff.1 (List.mem_filter.1 hr).2).2

/-- The first row a report works on is as early as any it could work on. -/
theorem exists_mem_readRows {r : Stored MetricRecord} (hr : r ∈ db.metrics)
    (hreach : reaches tenant start upTo r = true) :
    ∃ m ∈ db.readRows tenant start upTo, m.timestamp ≤ r.row.timestamp * second := by
  have hmem : r ∈ (db.metrics.filter (reaches tenant start upTo)).insertionSort
      metricColumns.Before := by
    rw [List.mem_insertionSort]
    exact List.mem_filter.2 ⟨hr, hreach⟩
  have hsort := List.pairwise_insertionSort metricColumns.Before
    (db.metrics.filter (reaches tenant start upTo))
  unfold HubDB.readRows
  cases hord : (db.metrics.filter (reaches tenant start upTo)).insertionSort
      metricColumns.Before with
  | nil => simp [hord] at hmem
  | cons a l =>
    rw [hord] at hsort hmem
    refine ⟨scanMetric a, List.mem_map_of_mem ?_, ?_⟩
    · rw [show defaultQueryLimit = 99999 + 1 from rfl, List.take_succ_cons]
      exact List.mem_cons_self
    · show a.row.timestamp * second ≤ _
      rcases List.mem_cons.1 hmem with rfl | hl
      · exact le_rfl
      · have := (List.pairwise_cons.1 hsort).1 r hl
        simp only [Columns.Before, metricColumns, second] at this ⊢
        omega

/-- The rows a report works on are those of its period just when the period is covered. -/
theorem readRows_eq_iff :
    db.readRows tenant start upTo = db.windowRows tenant start upTo
      ↔ db.Covered tenant start upTo := by
  constructor
  · intro h
    refine ⟨?_, fun r hr hreach => ?_⟩
    · rw [← h]
      simp [HubDB.readRows]
    · obtain ⟨m, hm, hle⟩ := exists_mem_readRows hr hreach
      rw [h] at hm
      exact (le_of_mem_windowRows hm).trans hle
  · intro h
    have hfilter : db.metrics.filter (reaches tenant start upTo)
        = db.metrics.filter (within tenant start upTo) := by
      refine List.filter_congr fun r hr => ?_
      rw [Bool.eq_iff_iff, within_iff]
      exact ⟨fun hreach => ⟨hreach, h.whole r hr hreach⟩, fun hw => hw.1⟩
    have hfew := h.few
    simp only [HubDB.windowRows, List.length_map, List.length_insertionSort] at hfew
    unfold HubDB.readRows HubDB.windowRows
    rw [hfilter, List.take_of_length_le]
    rw [List.length_insertionSort]
    exact hfew

theorem generateAssessmentReport_eq (A : Arith) (ht : requireTenant tenant = true) :
    generateAssessmentReport A start stop tenant db
      = .ok (assessment A start stop (db.readRows tenant start (some stop))) := by
  unfold generateAssessmentReport
  rw [assessedRows_eq ht, ht]
  rfl

theorem length_readRows : (db.readRows tenant start upTo).length
    = min defaultQueryLimit (db.metrics.countP (reaches tenant start upTo)) := by
  unfold HubDB.readRows
  rw [List.length_map, List.length_take, List.length_insertionSort, List.countP_eq_length_filter]

/-- The reports are computed from the rows of their period just when it is covered, and then count
and summarise exactly these. -/
theorem reports_window (A : Arith) (tenant : String) (ht : requireTenant tenant = true)
    (start stop now : ℤ) (db : HubDB) :
    (assessedRows start stop tenant db = .ok (db.windowRows tenant start (some stop))
      ↔ db.Covered tenant start (some stop))
    ∧ (db.queryMetrics start tenant = .ok (db.windowRows tenant start none)
      ↔ db.Covered tenant start none)
    ∧ (db.Covered tenant start (some stop) →
      ∃ report, generateAssessmentReport A start stop tenant db = .ok report
        ∧ report.sampleCount = (db.windowRows tenant start (some stop)).length
        ∧ report.servers = computePerServerSummaries A (db.windowRows tenant start (some stop))
          (periodText start stop)
        ∧ report.summary = computeSummary A (db.windowRows tenant start (some stop))
          (periodText start stop))
    ∧ (db.Covered tenant start none →
      writeCSV A start now tenant db
          = .ok (computeSummary A (db.windowRows tenant start none) (periodText start now),
            db.windowRows tenant start none)
        ∧ textReport A start now tenant db
          = .ok (computeSummary A (db.windowRows tenant start none) (periodText start now))) := by
  refine ⟨?_, ?_, fun hc => ?_, fun hc => ?_⟩
  · rw [assessedRows_eq ht, Except.ok.injEq, readRows_eq_iff]
  · rw [queryMetrics_eq ht, Except.ok.injEq, readRows_eq_iff]
  · refine ⟨assessment A start stop (db.windowRows tenant start (some stop)), ?_, rfl, rfl, rfl⟩
    rw [generateAssessmentReport_eq A ht, readRows_eq_iff.2 hc]
  · unfold writeCSV textReport
    rw [queryMetrics_eq ht, readRows_eq_iff.2 hc, ht]
    exact ⟨rfl, rfl⟩

/-- A metric whose percentages are exact in float64. -/
def quarterMetric : MetricRow := { sampleMetric with cpuPct := .fin 25, memPct := .fin 50 }

/-- The float64 arithmetic as far as the summary of `quarterMetric` goes: of the constants only
`1.2` is rounded, and all operations are exact. -/
def sampleArith : Arith :=
  { exactArith with
    lit := fun q => if q = 6 / 5 then .fin (5404319552844595 / 4503599627370496) else .fin q }

theorem reports_window_sample :
    (sampleTable quarterMetric 3).Covered "tenant-a" quarterMetric.timestamp
        (some quarterMetric.timestamp)
      ∧ ∃ report, generateAssessmentReport sampleArith quarterMetric.timestamp
          quarterMetric.timestamp "tenant-a" (sampleTable quarterMetric 3) = .ok report
        ∧ report.sampleCount = 3 ∧ report.summary.avgCPU = .fin 25 := by
  have hc : (sampleTable quarterMetric 3).Covered "tenant-a" quarterMetric.timestamp
      (some quarterMetric.timestamp) := ⟨by decide +kernel, by decide +kernel⟩
  obtain ⟨report, hr, hn, -, hs⟩ := (reports_window sampleArith "tenant-a" (by decide +kernel)
    quarterMetric.timestamp quarterMetric.timestamp 0 (sampleTable quarterMetric 3)).2.2.1 hc
  refine ⟨hc, report, hr, hn.trans (by decide +kernel), ?_⟩
  rw [hs]
  decide +kernel

theorem sampleTable_rows {n : ℕ} {r : Stored MetricRecord}
    (h : r ∈ (sampleTable quarterMetric n).metrics) :
    reaches "tenant-a" quarterMetric.timestamp (some quarterMetric.timestamp) r = true
      ∧ within "tenant-a" quarterMetric.timestamp (some quarterMetric.timestamp) r = true := by
  obtain ⟨i, -, rfl⟩ := List.mem_map.1 h
  exact ⟨rfl, rfl⟩

/-- With one row more than a query returns, the report counts and uses one row less than there is. -/
theorem report_truncated :
    ∃ report, generateAssessmentReport sampleArith quarterMetric.timestamp
        quarterMetric.timestamp "tenant-a" (sampleTable quarterMetric 100001) = .ok report
      ∧ report.sampleCount = 100000
      ∧ ((sampleTable quarterMetric 100001).windowRows "tenant-a" quarterMetric.timestamp
        (some quarterMetric.timestamp)).length = 100001 := by
  generalize hn : 100001 = n
  have hlen : (sampleTable quarterMetric n).metrics.length = n := by simp [sampleTable]
  refine ⟨_, generateAssessmentReport_eq sampleArith (by decide +kernel), ?_, ?_⟩
  · simp only [assessment]
    rw [length_readRows, List.countP_eq_length.2 fun r hr => (sampleTable_rows hr).1, hlen, ← hn]
    rfl
  · unfold HubDB.windowRows
    rw [List.filter_eq_self.2 fun r hr => (sampleTable_rows hr).2, List.length_map,
      List.length_insertionSort, hlen]

end WMonitor
