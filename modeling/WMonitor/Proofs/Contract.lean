import WMonitor.Proofs.Collector
import WMonitor.Proofs.ExactlyOnce

/-!
# What the agent admits and the Hub refuses

`enqueue` takes every row that can be marshalled, `NormalizeIngest` checks its values. The identity
that `enqueue` gives an event always passes, and so does most of what the collector fills in. What is
left (`Row.Fits`) decides, and a row that does not fit is refused for good (`admissible_iff`): a
process whose name could not be looked up is one of them.
-/

namespace WMonitor

/-! ## Measurements -/

/-- A number from zero to `hi`. -/
def F64.Within (hi : ℚ) (v : F64) : Prop := ∃ q, v = .fin q ∧ 0 ≤ q ∧ q ≤ hi

theorem validMeasurement_iff {values : List F64} :
    validMeasurement values = true ↔ ∀ v ∈ values, v.Within (10 ^ 15) := by
  unfold validMeasurement
  rw [List.all_eq_true]
  refine forall₂_congr fun v _ => ?_
  rcases v with _ | neg | q
  · simp [F64.isNaN, F64.Within]
  · simp [F64.isInf, F64.Within]
  · simp [F64.isNaN, F64.isInf, F64.lt, F64.Within]

theorem within_hundred {v : F64} :
    v.Within 100 ↔ v.Within (10 ^ 15) ∧ (F64.fin 100).lt v = false := by
  constructor
  · rintro ⟨q, rfl, h₀, h₁⟩
    refine ⟨⟨q, rfl, h₀, h₁.trans (by norm_num)⟩, ?_⟩
    simpa [F64.lt] using h₁
  · rintro ⟨⟨q, rfl, h₀, -⟩, h⟩
    refine ⟨q, rfl, h₀, ?_⟩
    simpa [F64.lt] using h

/-! ## Rows that fit -/

/-- What of a metric the Hub checks and the collector leaves open. -/
structure MetricRow.Fits (m : MetricRow) : Prop where
  hostname : len m.hostname ≤ 256
  cpuPct : m.cpuPct.Within 100
  memPct : m.memPct.Within 100
  diskIOPS : m.diskIOPS.Within (10 ^ 15)
  netMBps : m.netMBps.Within (10 ^ 15)
  cpuCores : m.cpuCores ≤ 1000000
  users : 0 ≤ m.concurrentUsers ∧ m.concurrentUsers ≤ 1000000000
  counters : ∀ n ∈ m.counters, n ≤ maxInt64

/-- What of a process the Hub checks and the collector leaves open. -/
structure ProcessRow.Fits (p : ProcessRow) : Prop where
  hostname : len p.hostname ≤ 256
  name : p.name ≠ "" ∧ len p.name ≤ 512
  pid : 0 ≤ p.pid

def Row.Fits : Row → Prop
  | .metric m => m.Fits
  | .process p => p.Fits

def Row.timestamp : Row → ℤ
  | .metric m => m.timestamp
  | .process p => p.timestamp

/-- A tenant and a server that the Hub takes events of. -/
def ValidScope (tenant server : String) : Prop :=
  requireTenant tenant = true ∧ server ≠ "" ∧ len server ≤ 256

/-- What the collector sees to in every metric. -/
structure MetricRow.Collected (serverID : String) (m : MetricRow) : Prop where
  id : m.id = 0
  serverID : m.serverID = serverID
  diskFreeGB : m.diskFreeGB.Within (10 ^ 15)
  memTotalGB : m.memTotalGB.Within (10 ^ 15)
  diskTotalGB : m.diskTotalGB.Within (10 ^ 15)
  cpuCores : 0 ≤ m.cpuCores

/-- What the collector sees to in every process: its share of the CPU is no more than all of it,
unless it is not a number. -/
structure ProcessRow.Collected (serverID : String) (p : ProcessRow) : Prop where
  id : p.id = 0
  serverID : p.serverID = serverID
  cpuPct : ∀ q, p.cpuPct = .fin q → p.cpuPct.Within (10 ^ 15)
  memMB : p.memMB.Within (10 ^ 15)

def Row.Collected (serverID : String) : Row → Prop
  | .metric m => m.Collected serverID
  | .process p => p.Collected serverID

variable {tenant server : String}

theorem MetricRow.admitted_iff {m : MetricRow} (h : m.Collected server) :
    ({ m with tenantID := "" } : MetricRow).admitted tenant server = true
        ∧ ({ m with tenantID := "" } : MetricRow).counters.any (· > maxInt64) = false
      ↔ m.Fits := by
  have hvalid : validMeasurement [m.cpuPct, m.memPct, m.diskFreeGB, m.memTotalGB, m.diskTotalGB,
      m.diskIOPS, m.netMBps] = true ↔ m.cpuPct.Within (10 ^ 15) ∧ m.memPct.Within (10 ^ 15)
        ∧ m.diskIOPS.Within (10 ^ 15) ∧ m.netMBps.Within (10 ^ 15) := by
    rw [validMeasurement_iff]
    simp [h.diskFreeGB, h.memTotalGB, h.diskTotalGB]
  have hcounters : ({ m with tenantID := "" } : MetricRow).counters.any (· > maxInt64) = false
      ↔ ∀ n ∈ m.counters, n ≤ maxInt64 := by
    rw [List.any_eq_false]
    simp [MetricRow.counters]
  rw [hcounters]
  simp only [MetricRow.admitted, h.id, h.serverID, ne_eq, not_true_eq_false, decide_false,
    Bool.and_false, Bool.false_and, Bool.false_or, Bool.not_eq_true', Bool.or_eq_false_iff,
    decide_eq_false_iff_not, Bool.not_eq_false', hvalid, not_lt]
  constructor
  · rintro ⟨⟨⟨⟨⟨⟨⟨⟨hhost, hcpu, hmem, hiops, hmbps⟩, hcpu'⟩, hmem'⟩, -⟩, hcores⟩, hu⟩, hu'⟩, hc⟩
    exact ⟨hhost, within_hundred.2 ⟨hcpu, hcpu'⟩, within_hundred.2 ⟨hmem, hmem'⟩, hiops, hmbps,
      hcores, ⟨hu, hu'⟩, hc⟩
  · intro hf
    exact ⟨⟨⟨⟨⟨⟨⟨⟨hf.hostname, (within_hundred.1 hf.cpuPct).1, (within_hundred.1 hf.memPct).1,
      hf.diskIOPS, hf.netMBps⟩, (within_hundred.1 hf.cpuPct).2⟩, (within_hundred.1 hf.memPct).2⟩,
      h.cpuCores⟩, hf.cpuCores⟩, hf.users.1⟩, hf.users.2⟩, hf.counters⟩

theorem ProcessRow.admitted_iff {p : ProcessRow} (h : p.Collected server)
    (hfin : ∃ q, p.cpuPct = .fin q) :
    ({ p with tenantID := "" } : ProcessRow).admitted tenant server = true ↔ p.Fits := by
  obtain ⟨q, hq⟩ := hfin
  have hvalid : validMeasurement [p.cpuPct, p.memMB] = true := by
    rw [validMeasurement_iff]
    simp [h.cpuPct q hq, h.memMB]
  simp only [ProcessRow.admitted, h.id, h.serverID, ne_eq, not_true_eq_false, decide_false,
    Bool.and_false, Bool.false_and, Bool.false_or, Bool.not_eq_true', Bool.or_eq_false_iff,
    decide_eq_false_iff_not, Bool.not_eq_false', hvalid, and_true, not_lt]
  constructor
  · rintro ⟨⟨⟨hhost, hname⟩, hlen⟩, hpid⟩
    exact ⟨hhost, ⟨hname, hlen⟩, hpid⟩
  · intro hf
    exact ⟨⟨⟨hf.hostname, hf.name.1⟩, hf.name.2⟩, hf.pid⟩

/-! ## The collector -/

namespace Collector

/-- A counter in units of no less than `2 ^ 64 / 10 ^ 15`. -/
theorem counter_within (n : UInt64) {unit : ℚ} (hu : 2 ^ 64 ≤ 10 ^ 15 * unit) :
    (exactArith.div (exactArith.ofInt n.toNat) (exactArith.lit unit)).Within (10 ^ 15) := by
  have hpos : 0 < unit := by linarith
  have hn : ((n.toNat : ℤ) : ℚ) ≤ 2 ^ 64 := by exact_mod_cast n.toNat_lt.le
  refine ⟨((n.toNat : ℤ) : ℚ) / unit, exact_div hpos.ne', ?_, ?_⟩
  · exact div_nonneg (by exact_mod_cast n.toNat.zero_le) hpos.le
  · rw [div_le_iff₀ hpos]
    exact hn.trans hu

theorem gigabytes_within (n : UInt64) : (gigabytes exactArith n).Within (10 ^ 15) :=
  counter_within n (by norm_num)

theorem zero_within : (F64.fin 0).Within (10 ^ 15) := ⟨0, rfl, le_rfl, by norm_num⟩

theorem metric_collected {c : Collector} (hc : 0 ≤ c.numCores) (p : Poll) :
    (c.metric exactArith p).Collected c.serverID where
  id := rfl
  serverID := rfl
  diskFreeGB := by
    simp only [metric]
    rcases p.rootUsage <|> p.driveUsage with _ | u
    · exact zero_within
    · exact gigabytes_within _
  memTotalGB := by
    simp only [metric]
    rcases p.memory with _ | m
    · exact zero_within
    · exact gigabytes_within _
  diskTotalGB := by
    simp only [metric]
    rcases p.rootUsage <|> p.driveUsage with _ | u
    · exact zero_within
    · exact gigabytes_within _
  cpuCores := hc

theorem processCPUPercent_within {cur prev : F64} {elapsed numCores : ℤ} {q : ℚ}
    (h : processCPUPercent exactArith cur prev elapsed numCores = .fin q) : 0 ≤ q ∧ q ≤ 100 := by
  simp only [processCPUPercent] at h
  split_ifs at h with h₁ h₂ h₃ h₄
  · cases h
    norm_num
  · cases h
    norm_num
  · cases h
    norm_num
  · cases h
    norm_num
  · rw [h] at h₃ h₄
    simpa [F64.lt] using And.intro h₃ h₄

/-- One turn of the sampler's loop adds rows that are as they should be. -/
theorem visit_collected {s : ProcCPUSampler} {ts : ℤ} {serverID hostname : String} {r : ProcReading}
    {acc : List (ProcKey × ProcSample) × List ProcessRow}
    (h : ∀ row ∈ acc.2, row.Collected serverID ∧ row.timestamp = ts) :
    ∀ row ∈ (s.visit exactArith ts serverID hostname acc r).2,
      row.Collected serverID ∧ row.timestamp = ts := by
  intro row hrow
  unfold ProcCPUSampler.visit at hrow
  split at hrow
  · exact h row hrow
  dsimp only at hrow
  split at hrow
  · exact h row hrow
  split at hrow
  · exact h row hrow
  rename_i rss hrss
  rcases List.mem_append.1 hrow with hrow | hrow
  · exact h row hrow
  rw [List.mem_singleton.1 hrow]
  refine ⟨⟨rfl, rfl, fun q hq => ?_, ?_⟩, rfl⟩
  · dsimp only at hq ⊢
    obtain ⟨h₀, h₁⟩ := processCPUPercent_within hq
    exact ⟨q, hq, h₀, h₁.trans (by norm_num)⟩
  · exact counter_within rss (by norm_num)

theorem visits_collected {s : ProcCPUSampler} {ts : ℤ} {serverID hostname : String} :
    ∀ {rs : List ProcReading} {acc : List (ProcKey × ProcSample) × List ProcessRow},
      (∀ row ∈ acc.2, row.Collected serverID ∧ row.timestamp = ts) →
      ∀ row ∈ (rs.foldl (s.visit exactArith ts serverID hostname) acc).2,
        row.Collected serverID ∧ row.timestamp = ts
  | [], _, h => h
  | r :: rs, acc, h => by
    rw [List.foldl_cons]
    exact visits_collected (visit_collected h)

theorem collect_processes {c : Collector} {p : Poll} :
    ∀ row ∈ (c.collect exactArith p).2.2, row.Collected c.serverID ∧ row.timestamp = p.now := by
  intro row hrow
  unfold collect at hrow
  dsimp only at hrow
  split_ifs at hrow
  · cases hrow
  · unfold ProcCPUSampler.sample at hrow
    split at hrow
    · cases hrow
    · rename_i procs _
      have hmem := List.mem_of_mem_take hrow
      rw [List.mem_insertionSort, (p.perm _).mem_iff] at hmem
      exact visits_collected (by simp) row hmem

/-- A row that the collector gives to the agent. -/
def Builds (c : Collector) (p : Poll) (row : Row) : Prop :=
  row = .metric (c.metric exactArith p) ∨ ∃ r ∈ (c.collect exactArith p).2.2, row = .process r

/-- A new collector, primed or not, after some polls. -/
def reached (host : Option String) (counts : Option ℤ) (serverID externalIface : String)
    (primed : Option Poll) (polls : List Poll) : Collector :=
  let c := Collector.new host counts serverID externalIface
  (primed.elim c (c.prime exactArith)).after exactArith polls

variable {host : Option String} {counts : Option ℤ} {serverID externalIface : String}

theorem collect_fixed (c : Collector) (p : Poll) :
    (c.collect exactArith p).1.serverID = c.serverID
      ∧ (c.collect exactArith p).1.numCores = c.numCores := by
  unfold collect
  dsimp only
  split_ifs <;> exact ⟨rfl, rfl⟩

theorem after_fixed : ∀ (polls : List Poll) (c : Collector),
    (c.after exactArith polls).serverID = c.serverID
      ∧ (c.after exactArith polls).numCores = c.numCores
  | [], _ => ⟨rfl, rfl⟩
  | p :: polls, c => by
    obtain ⟨hs, hn⟩ := collect_fixed c p
    obtain ⟨hs', hn'⟩ := after_fixed polls (c.collect exactArith p).1
    exact ⟨hs'.trans hs, hn'.trans hn⟩

theorem reached_fixed (primed : Option Poll) (polls : List Poll) :
    (reached host counts serverID externalIface primed polls).serverID = serverID
      ∧ 0 ≤ (reached host counts serverID externalIface primed polls).numCores := by
  have hcores : 0 ≤ (Collector.new host counts serverID externalIface).numCores := by
    simp only [Collector.new]
    split
    · split_ifs <;> omega
    · omega
  obtain ⟨hs, hn⟩ := after_fixed polls (primed.elim (Collector.new host counts serverID externalIface)
    ((Collector.new host counts serverID externalIface).prime exactArith))
  unfold reached
  dsimp only
  rw [hs, hn]
  cases primed with
  | none => exact ⟨rfl, hcores⟩
  | some p => exact ⟨rfl, hcores⟩

theorem Builds.collected {primed : Option Poll} {polls : List Poll} {p : Poll} {row : Row}
    (h : (reached host counts serverID externalIface primed polls).Builds p row) :
    row.Collected serverID ∧ row.timestamp = p.now := by
  obtain ⟨hserver, hcores⟩ := @reached_fixed host counts serverID externalIface primed polls
  rcases h with rfl | ⟨r, hr, rfl⟩
  · refine ⟨?_, rfl⟩
    have := metric_collected hcores p
    rwa [hserver] at this
  · obtain ⟨hcol, hts⟩ := collect_processes r hr
    rw [hserver] at hcol
    exact ⟨hcol, hts⟩

end Collector

/-! ## The identity of an event -/

theorem identifierChar_hexDigit {n : ℕ} (h : n < 16) : identifierChar (hexDigit n) = true := by
  interval_cases n <;> rfl

theorem identifierChar_isDigit {c : Char} (h : c.isDigit = true) : identifierChar c = true := by
  simp only [Char.isDigit, Bool.and_eq_true, decide_eq_true_eq] at h
  have hc : '0' ≤ c ∧ c ≤ '9' := h
  simp [identifierChar, hc]

theorem identifierChar_hexEncode {bs : List UInt8} {c : Char} (h : c ∈ (hexEncode bs).toList) :
    identifierChar c = true := by
  simp only [hexEncode, String.toList_ofList, List.mem_flatMap, List.mem_cons, List.not_mem_nil,
    or_false] at h
  obtain ⟨b, -, hc⟩ := h
  have hb := b.toNat_lt
  rcases hc with rfl | rfl
  · exact identifierChar_hexDigit (by omega)
  · exact identifierChar_hexDigit (by omega)

theorem eventIdentifier_hexEncode {bs : List UInt8} (hne : bs ≠ []) (hlen : bs.length ≤ 64) :
    eventIdentifier (hexEncode bs) = true := by
  have hlength : (hexEncode bs).toList.length = 2 * bs.length := by
    simp [hexEncode, List.length_flatMap]
    omega
  have hpos := List.length_pos_iff.2 hne
  simp only [eventIdentifier, hlength, Bool.and_eq_true, decide_eq_true_eq, List.all_eq_true]
  exact ⟨⟨by omega, by omega⟩, fun c hc => identifierChar_hexEncode hc⟩

theorem eventIdentifier_boot (boot : UInt64) :
    eventIdentifier ("boot-" ++ String.ofList (itoa boot.toNat)) = true := by
  have hitoa : itoa boot.toNat = Nat.toDigits 10 boot.toNat := by
    rw [itoa, if_neg (by omega), Int.natAbs_natCast]
  have hlen : (Nat.toDigits 10 boot.toNat).length ≤ 20 := by
    have := boot.toNat_lt
    exact (Nat.length_toDigits_le_iff (by decide) (by decide)).2 (by omega)
  have hdigits := List.all_eq_true.1 (toDigits_all boot.toNat)
  have hboot : "boot-".toList.all identifierChar = true := by decide
  simp only [eventIdentifier, hitoa, String.toList_append, String.toList_ofList, List.length_append,
    List.all_append, Bool.and_eq_true, decide_eq_true_eq, List.all_eq_true]
  refine ⟨⟨?_, ?_⟩, List.all_eq_true.1 hboot, fun c hc => identifierChar_isDigit (hdigits c hc)⟩
  · change 1 ≤ 5 + _
    omega
  · change 5 + _ ≤ 128
    omega

namespace Agent

theorem Stamped.identified {row : Row} {ev : IngestEvent} (h : Stamped row ev) :
    ev.identified [] = true := by
  obtain ⟨id, _, sequence, ⟨boot, rfl⟩, hpos, hle, rfl⟩ := h
  have hid := eventIdentifier_hexEncode (show List.ofFn id ≠ [] by simp) (by simp)
  have hboot := eventIdentifier_boot boot
  generalize hexEncode (List.ofFn id) = eventID at hid ⊢
  cases row <;> simp [IngestEvent.identified, Row.event, hid, hboot, hpos.ne', hle]

end Agent

/-! ## One event -/

variable {now : ℤ} {ev : IngestEvent}

/-- A batch of one event is normalised if the event is, for a tenant and a server that can send. -/
theorem normalizeIngest_single :
    (∃ b, normalizeIngest ⟨ingestSchema, [ev]⟩ tenant server now = .ok b)
      ↔ ValidScope tenant server ∧ ∃ n, normalizeEvent tenant server now [] ev = .ok n := by
  have hscope : (!requireTenant tenant ∨ server = "" ∨ len server > 256
      ∨ ingestSchema ≠ ingestSchema ∨ [ev].length = 0 ∨ [ev].length > maxBatchEvents)
        ↔ ¬ ValidScope tenant server := by
    have hone : ¬ [ev].length > maxBatchEvents := by simp [maxBatchEvents]
    have hsome : ¬ [ev].length = 0 := by simp
    simp only [ValidScope, Bool.not_eq_true', ne_eq, not_true_eq_false, hone, hsome, or_false,
      not_and_or, Bool.not_eq_true, not_not, not_le]
  unfold normalizeIngest
  by_cases hs : ValidScope tenant server
  · rw [if_neg (by rw [hscope]; exact not_not.2 hs)]
    rcases hn : normalizeEvent tenant server now [] ev with e | n
    · simp [normalizeEvents, hn, bind, Except.bind]
    · simp [normalizeEvents, hn, bind, Except.bind, pure, Except.pure, hs]
  · rw [if_pos (hscope.2 hs)]
    simp [hs]

/-- An event that has its identity is normalised when its row is admitted and it is in the window. -/
theorem normalizeEvent_stamped {row : Row} (hst : Agent.Stamped row ev)
    (hc : row.Collected server) (hfin : ∀ p, row = .process p → ∃ q, p.cpuPct = .fin q) :
    (∃ n, normalizeEvent tenant server now [] ev = .ok n)
      ↔ row.Fits ∧ inWindow now row.timestamp = true := by
  simp only [normalizeEvent, hst.identified, Bool.not_true, Bool.false_eq_true, if_false]
  obtain ⟨id, bootID, sequence, -, -, -, rfl⟩ := hst
  generalize hexEncode (List.ofFn id) = eventID
  cases row with
  | metric m =>
    simp only [Row.event, normalizeRow, Row.Fits, Row.timestamp]
    rw [← @MetricRow.admitted_iff tenant server m hc]
    by_cases h₁ : ({ m with tenantID := "" } : MetricRow).admitted tenant server = true
    swap
    · simp [h₁]
    by_cases h₂ : ({ m with tenantID := "" } : MetricRow).counters.any (· > maxInt64) = true
    · simp only [h₁, h₂, Bool.not_true, Bool.false_eq_true, if_false, if_true]
      simp
    rw [Bool.not_eq_true] at h₂
    simp only [h₁, h₂, Bool.not_true, Bool.false_eq_true, if_false]
    by_cases h₃ : inWindow now m.timestamp = true <;> simp [h₃]
  | process p =>
    simp only [Row.event, normalizeRow, Row.Fits, Row.timestamp]
    rw [← @ProcessRow.admitted_iff tenant server p hc (hfin p rfl)]
    by_cases h₁ : ({ p with tenantID := "" } : ProcessRow).admitted tenant server = true
    swap
    · simp [h₁]
    by_cases h₃ : inWindow now p.timestamp = true <;> simp [h₁, h₃]

/-- Some time has the timestamp in its window, unless it is the zero time. -/
theorem exists_inWindow {ts : ℤ} : (∃ now, inWindow now ts = true) ↔ ts ≠ zeroTime := by
  constructor
  · rintro ⟨now, h⟩ rfl
    simp [inWindow] at h
  · intro h
    refine ⟨ts, ?_⟩
    simp only [inWindow, h, decide_false, Bool.false_or, Bool.not_eq_true', Bool.or_eq_false_iff,
      decide_eq_false_iff_not, not_lt]
    unfold maxEventAge hour minute second
    omega

/-! ## The contract -/

/-- The floats of an event. -/
def IngestEvent.floats (e : IngestEvent) : List F64 :=
  (e.metric.toList.flatMap fun m => [m.cpuPct, m.memPct, m.diskFreeGB, m.memTotalGB, m.diskTotalGB,
    m.diskIOPS, m.netMBps]) ++ e.process.toList.flatMap fun p => [p.cpuPct, p.memMB]

/-- `encoding/json` marshals finite values only. -/
def Wire.FiniteOnly (W : Wire) : Prop :=
  ∀ event body, W.marshal event = .ok body → ∀ v ∈ event.floats, ∃ q, v = .fin q

/-- The Hub accepts the event alone whenever it is in the window. -/
def Admissible (tenant server : String) (ev : IngestEvent) : Prop :=
  ∀ now, inWindow now ev.timestamp = true →
    ∃ b, normalizeIngest ⟨ingestSchema, [ev]⟩ tenant server now = .ok b

theorem admissible_stamped {row : Row} (hst : Agent.Stamped row ev) (hc : row.Collected server)
    (hfin : ∀ p, row = .process p → ∃ q, p.cpuPct = .fin q) :
    Admissible tenant server ev
      ↔ row.timestamp = zeroTime ∨ ValidScope tenant server ∧ row.Fits := by
  have hts : ev.timestamp = row.timestamp := by
    obtain ⟨id, bootID, sequence, -, -, -, rfl⟩ := hst
    cases row <;> rfl
  have hone : ∀ now, (∃ b, normalizeIngest ⟨ingestSchema, [ev]⟩ tenant server now = .ok b)
      ↔ ValidScope tenant server ∧ row.Fits ∧ inWindow now row.timestamp = true := fun now => by
    rw [normalizeIngest_single, normalizeEvent_stamped hst hc hfin]
  unfold Admissible
  rw [hts]
  constructor
  · intro h
    by_cases hz : row.timestamp = zeroTime
    · exact .inl hz
    · obtain ⟨now, hnow⟩ := exists_inWindow.2 hz
      obtain ⟨hs, hf, -⟩ := (hone now).1 (h now hnow)
      exact .inr ⟨hs, hf⟩
  · rintro (hz | ⟨hs, hf⟩) now hnow
    · exact absurd hz (exists_inWindow.1 ⟨now, hnow⟩)
    · exact (hone now).2 ⟨hs, hf, hnow⟩

namespace Agent

variable {W : Wire}

theorem encode_finite (hN : W.FiniteOnly) {text : List Char} {row : Row} (hst : Stamped row ev)
    (h : encode W ev = .ok text) : ∀ p, row = .process p → ∃ q, p.cpuPct = .fin q := by
  rintro p rfl
  obtain ⟨id, bootID, sequence, -, -, -, rfl⟩ := hst
  unfold encode at h
  split at h
  · cases h
  · rename_i body hbody
    exact hN _ body hbody p.cpuPct (by simp [IngestEvent.floats, Row.event])

/-- Of what the collector builds and `enqueue` takes, the Hub accepts just what fits, whatever else
the agent and the Hub do. -/
theorem admissible_iff (U : URLs) (W : Wire) (hW : W.RoundTrips) (hE : W.KeepsEvents)
    (hN : W.FiniteOnly) (tenant serverID : String)
    (turns : List (Turn (Choice AgentChoice) AgentCall (Reception × IngestRequest)))
    (host : Option String) (counts : Option ℤ) (externalIface : String) (primed : Option Poll)
    (polls : List Poll) (p : Poll) (row : Row)
    (hrow : (Collector.reached host counts serverID externalIface primed polls).Builds p row)
    (op : ℕ) (hr : (op, .insert row, .ok ()) ∈ (reached U W tenant serverID turns).results) :
    ∃ x ∈ (reached U W tenant serverID turns).shared.queue.written, x.op = op
      ∧ (x.entry.stored.raw.length ≤ maxBatchBytes →
        ∃ ev, W.spooledEvent x.entry.stored.payloadType x.entry.stored.raw = .ok ev
          ∧ (Admissible tenant serverID ev
            ↔ p.now = zeroTime ∨ ValidScope tenant serverID ∧ row.Fits)) := by
  have hk : Pool.Kept (Spool.protocol U (outside W tenant serverID)) Spool.Fresh (Promise W)
      (reached U W tenant serverID turns) := reached_kept hW hE turns
  obtain ⟨x, hx, hop, ev, hev, hst, hty, text, henc, hbody⟩ : Enqueued W row op _ := hk.post _ hr
  obtain ⟨hcol, hts⟩ := hrow.collected
  refine ⟨x, hx, hop, fun hlen => ⟨ev, ?_, ?_⟩⟩
  · rw [SpoolEntry.stored, hty]
    exact hE ev text x.entry.body henc hbody hlen
  · rw [admissible_stamped hst hcol (encode_finite hN hst henc), hts]

/-! ## A process with and without its name -/

/-- The system runs one process, which has used so many seconds of the CPU. -/
def procPoll (now : ℤ) (name : Option String) (cpu : ℚ) : Poll where
  now := now
  cpuPercents := []
  memory := none
  rootUsage := none
  driveUsage := none
  diskCounters := none
  ifaceCounters := none
  detectedIface := ""
  concurrentUsers := 0
  stored := true
  processes := some [⟨1, some (.fin cpu, .fin 0), some 0, some 1048576, name⟩]
  tie := id
  perm := List.Perm.refl

def procRow (name : Option String) : ProcessRow :=
  ⟨0, 1767225610 * second, "", "agent-a", "localhost", 1, name.getD "", .fin 20, .fin 1⟩

/-- The row as the agent sends it. -/
def procEvent (name : Option String) : IngestEvent :=
  (Row.process (procRow name)).event (hexEncode (List.replicate 16 0)) "boot-1" 1

/-- A new process is handed the row. -/
def insertRun (row : Row) : List (Turn (Choice AgentChoice) AgentCall (Reception × IngestRequest)) :=
  .start (.start "https://hub" "key") :: List.replicate 4 (.thread 0 (quiet .lost))
    ++ .start (.bindIdentity "tenant-a" "agent-a") :: List.replicate 20 (.thread 1 (quiet .lost))
    ++ .start (.insert row) :: List.replicate 30 (.thread 2 (quiet .lost))

theorem shortWire_finiteOnly (name : Option String) : (shortWire (procEvent name)).FiniteOnly := by
  intro event body h v hv
  simp only [shortWire] at h
  split_ifs at h with h₁ h₂
  · subst h₁
    simp only [procEvent, procRow, Row.event, IngestEvent.floats, Option.toList_none,
      List.flatMap_nil, List.nil_append, Option.toList_some, List.flatMap_singleton, List.mem_cons,
      List.not_mem_nil, or_false] at hv
    rcases hv with rfl | rfl <;> exact ⟨_, rfl⟩
  · subst h₂
    simp only [procEvent, procRow, Row.event, IngestEvent.filled, IngestEvent.floats,
      Option.map_none, Option.map_some, Option.toList_none, List.flatMap_nil, List.nil_append,
      Option.toList_some, List.flatMap_singleton, List.mem_cons, List.not_mem_nil, or_false] at hv
    rcases hv with rfl | rfl <;> exact ⟨_, rfl⟩

theorem procRow_builds (name : Option String)
    (h : ((Collector.reached none none "agent-a" "" none [procPoll (1767225600 * second) name 1]).collect
      exactArith (procPoll (1767225610 * second) name 3)).2.2 = [procRow name]) :
    (Collector.reached none none "agent-a" "" none [procPoll (1767225600 * second) name 1]).Builds
      (procPoll (1767225610 * second) name 3) (.process (procRow name)) :=
  .inr ⟨procRow name, by rw [h]; exact List.mem_singleton_self _, rfl⟩

theorem admissible_iff_named :
    ∃ x ∈ (reached sampleURLs (shortWire (procEvent (some "init"))) "tenant-a" "agent-a"
        (insertRun (.process (procRow (some "init"))))).shared.queue.written, x.op = 2
      ∧ (x.entry.stored.raw.length ≤ maxBatchBytes →
        ∃ ev, (shortWire (procEvent (some "init"))).spooledEvent x.entry.stored.payloadType
            x.entry.stored.raw = .ok ev
          ∧ (Admissible "tenant-a" "agent-a" ev
            ↔ 1767225610 * second = zeroTime
              ∨ ValidScope "tenant-a" "agent-a" ∧ Row.Fits (.process (procRow (some "init"))))) :=
  admissible_iff sampleURLs (shortWire (procEvent (some "init"))) (shortWire_roundTrips _)
    (shortWire_keepsEvents _) (shortWire_finiteOnly _) "tenant-a" "agent-a"
    (insertRun (.process (procRow (some "init")))) none none "" none
    [procPoll (1767225600 * second) (some "init") 1] (procPoll (1767225610 * second) (some "init") 3)
    (.process (procRow (some "init"))) (procRow_builds _ (by decide +kernel)) 2 (by decide +kernel)

/-- The name of a process cannot be looked up: the collector builds a row without it, the agent takes
the row, and the Hub never does. -/
theorem nameless_refused :
    (Collector.reached none none "agent-a" "" none [procPoll (1767225600 * second) none 1]).Builds
        (procPoll (1767225610 * second) none 3) (.process (procRow none))
      ∧ (2, .insert (.process (procRow none)), .ok ())
        ∈ (reached sampleURLs (shortWire (procEvent none)) "tenant-a" "agent-a"
          (insertRun (.process (procRow none)))).results
      ∧ ((reached sampleURLs (shortWire (procEvent none)) "tenant-a" "agent-a"
          (insertRun (.process (procRow none)))).shared.queue.written.map fun x =>
            (shortWire (procEvent none)).spooledEvent x.entry.payloadType x.entry.stored.raw)
        = [.ok (procEvent none)]
      ∧ ∀ now, normalizeIngest ⟨ingestSchema, [procEvent none]⟩ "tenant-a" "agent-a" now
        = .error (.invalid "ingest: invalid process identity or values") := by
  refine ⟨procRow_builds none (by decide +kernel), by decide +kernel, by decide +kernel, fun now => ?_⟩
  have hid : (procEvent none).identified [] = true := by decide +kernel
  have hrow : normalizeRow "tenant-a" "agent-a" (procEvent none)
      = .error (.invalid "ingest: invalid process identity or values") := by decide +kernel
  unfold normalizeIngest
  rw [if_neg (by decide +kernel)]
  simp only [normalizeEvents, normalizeEvent, hid, hrow, Bool.not_true, Bool.false_eq_true, if_false]
  rfl

end Agent

end WMonitor
