import WMonitor.Backend
import WMonitor.Proofs.Contract
import WMonitor.Proofs.ReadPage

/-!
# What the backends store and read back

The arguments of an insert are in the order of its columns and so are the variables of a scan, so that a
row comes back as it was, up to its id and the fraction of its second; the range checks of
`NormalizeIngest` are what the signed and the 32-bit columns need. SQLite does what `HubDB` says. Postgres
does too, or refuses: a text with a NUL, and every insert when the ids have run out.
-/

namespace WMonitor

/-! ## Inserts -/

/-- The backend takes the text. -/
def Backend.Keeps (b : Backend) (s : String) : Prop := b = .postgres → '\x00' ∉ s.toList

instance (b : Backend) (s : String) : Decidable (b.Keeps s) :=
  inferInstanceAs (Decidable (_ → _))

theorem Backend.holds_text (b : Backend) (s : String) :
    b.holds .text (.text s) = decide (b.Keeps s) := by
  cases b <;> simp [Backend.holds, Backend.Keeps]

theorem Backend.holds_bigint (b : Backend) (n : ℤ) : b.holds .bigint (.int n) = true := by
  cases b <;> rfl

theorem Backend.holds_double (b : Backend) (x : F64) : b.holds .double (.float x) = true := by
  cases b <;> rfl

theorem Backend.holds_int (b : Backend) {n : ℤ} (h : -2 ^ 31 ≤ n ∧ n < 2 ^ 31) :
    b.holds .int (.int n) = true := by
  cases b
  · rfl
  · simpa [Backend.holds] using h

/-- What `NormalizeIngest` ensures of a metric. -/
structure MetricRow.Storable (tenant agent : String) (m : MetricRow) : Prop where
  tenantID : m.tenantID = tenant
  serverID : m.serverID = agent
  counters : ∀ n ∈ m.counters, n ≤ maxInt64
  cpuCores : -2 ^ 31 ≤ m.cpuCores ∧ m.cpuCores < 2 ^ 31
  concurrentUsers : -2 ^ 31 ≤ m.concurrentUsers ∧ m.concurrentUsers < 2 ^ 31

/-- What it ensures of a process, whose `PID` has 32 bits. -/
structure ProcessRow.Storable (tenant agent : String) (p : ProcessRow) : Prop where
  tenantID : p.tenantID = tenant
  serverID : p.serverID = agent
  pid : -2 ^ 31 ≤ p.pid ∧ p.pid < 2 ^ 31

section Insert

variable {b : Backend} {tenant agent : String}

theorem insertValues_metric {m : MetricRow} (h : m.Storable tenant agent) :
    (b.insertValues MetricColumn.type metricInsert (metricArgs tenant agent m)).bind
        MetricRecord.ofColumns
      = if b.Keeps tenant ∧ b.Keeps agent ∧ b.Keeps m.hostname then
          some (metricRecord tenant agent m)
        else none := by
  have hall : ((metricInsert.zip (metricArgs tenant agent m)).all fun x => b.holds x.1.type x.2)
      = decide (b.Keeps tenant ∧ b.Keeps agent ∧ b.Keeps m.hostname) := by
    simp [metricInsert, metricArgs, MetricColumn.type, Backend.holds_text, Backend.holds_bigint,
      Backend.holds_double, b.holds_int h.cpuCores, b.holds_int h.concurrentUsers]
  unfold Backend.insertValues
  rw [hall]
  by_cases hk : b.Keeps tenant ∧ b.Keeps agent ∧ b.Keeps m.hostname
  · rw [if_pos hk, if_pos ⟨rfl, decide_eq_true hk⟩]
    rfl
  · rw [if_neg hk, if_neg (by simp [hk])]
    rfl

theorem insertValues_process {p : ProcessRow} (h : p.Storable tenant agent) :
    (b.insertValues ProcessColumn.type processInsert (processArgs tenant agent p)).bind
        ProcessRecord.ofColumns
      = if b.Keeps tenant ∧ b.Keeps agent ∧ b.Keeps p.hostname ∧ b.Keeps p.name then
          some (processRecord tenant agent p)
        else none := by
  have hall : ((processInsert.zip (processArgs tenant agent p)).all fun x => b.holds x.1.type x.2)
      = decide (b.Keeps tenant ∧ b.Keeps agent ∧ b.Keeps p.hostname ∧ b.Keeps p.name) := by
    simp [processInsert, processArgs, ProcessColumn.type, Backend.holds_text, Backend.holds_bigint,
      Backend.holds_double, b.holds_int h.pid]
  unfold Backend.insertValues
  rw [hall]
  by_cases hk : b.Keeps tenant ∧ b.Keeps agent ∧ b.Keeps p.hostname ∧ b.Keeps p.name
  · rw [if_pos hk, if_pos ⟨rfl, decide_eq_true hk⟩]
    rfl
  · rw [if_neg hk, if_neg (by simp [hk])]
    rfl

end Insert

/-! ## Scans -/

theorem toInt64_of_le {n : ℕ} (h : n ≤ maxInt64) : toInt64 n = n := by
  have hlt : n % 2 ^ 64 = n := Nat.mod_eq_of_lt (h.trans_lt (by decide))
  rw [toInt64, hlt, if_pos h]

theorem toUint64_of_le {n : ℕ} (h : n ≤ maxInt64) : toUint64 n = n := by
  have hlt : n < 2 ^ 64 := h.trans_lt (by decide)
  unfold toUint64
  omega

/-- The row as it is read: with the id it got, and without the fraction of its second. -/
def MetricRow.readBack (m : MetricRow) (id : ℕ) : MetricRow :=
  { m with id := id, timestamp := unix m.timestamp * second }

def ProcessRow.readBack (p : ProcessRow) (id : ℕ) : ProcessRow :=
  { p with id := id, timestamp := unix p.timestamp * second }

theorem scanMetric_record {tenant agent : String} {m : MetricRow} (h : m.Storable tenant agent)
    (b : Backend) (id : ℕ) :
    b.scanMetric ⟨id, metricRecord tenant agent m⟩ = some (m.readBack id) := by
  have hc := h.counters
  simp only [MetricRow.counters, List.forall_mem_cons, List.not_mem_nil, false_imp_iff, implies_true,
    and_true] at hc
  obtain ⟨h1, h2, h3, h4, h5, h6, h7, h8⟩ := hc
  have hrow : metricSelect.map (MetricRecord.column ⟨id, metricRecord tenant agent m⟩)
      = [.int id, .int (unix m.timestamp), .text m.tenantID, .text m.serverID, .text m.hostname,
        .float m.cpuPct, .float m.memPct, .float m.diskFreeGB, .int m.netSentBytes,
        .int m.netRecvBytes, .int m.cpuCores, .float m.memTotalGB, .float m.diskTotalGB,
        .int m.diskReadOps, .int m.diskWriteOps, .float m.diskIOPS, .float m.netMBps,
        .int m.concurrentUsers, .int m.netSentExternal, .int m.netRecvExternal,
        .int m.netSentInternal, .int m.netRecvInternal] := by
    simp only [metricSelect, List.map_cons, List.map_nil, MetricRecord.column, metricRecord,
      h.tenantID, h.serverID, toInt64_of_le h1, toInt64_of_le h2, toInt64_of_le h3, toInt64_of_le h4,
      toInt64_of_le h5, toInt64_of_le h6, toInt64_of_le h7, toInt64_of_le h8]
  unfold Backend.scanMetric
  rw [hrow]
  cases b
  · simp only [scanMetricSqlite, all_scanInt64, all_scanUint64, all_scanFloat64, all_scanString,
      Scan.all_pure, MetricRow.readBack]
  · simp only [scanMetricPostgres, all_scanInt64, all_scanFloat64, all_scanString, Scan.all_pure,
      MetricRow.readBack, toUint64_of_le h1, toUint64_of_le h2,
      toUint64_of_le h3, toUint64_of_le h4, toUint64_of_le h5, toUint64_of_le h6, toUint64_of_le h7,
      toUint64_of_le h8]

theorem scanProcess_record {tenant agent : String} {p : ProcessRow} (h : p.Storable tenant agent)
    (b : Backend) (id : ℕ) :
    b.scanProcess ⟨id, processRecord tenant agent p⟩ = some (p.readBack id) := by
  simp only [Backend.scanProcess, scanProcessRow, processSelect, List.map_cons, List.map_nil,
    ProcessRecord.column, processRecord, all_scanInt64, all_scanInt32 _ h.pid, all_scanFloat64,
    all_scanString, Scan.all_pure, ProcessRow.readBack, h.tenantID, h.serverID]

/-! ## Events that `NormalizeIngest` admits -/

/-- The texts of the event's row besides its tenant and agent. -/
def IngestEvent.texts (e : IngestEvent) : List String :=
  match e.metric, e.process with
  | some m, _ => [m.hostname]
  | none, some p => [p.hostname, p.name]
  | none, none => []

/-- What `NormalizeIngest` ensures of an event. -/
structure IngestEvent.Storable (tenant agent : String) (e : IngestEvent) : Prop where
  eventID : eventIdentifier e.eventID = true
  bootID : eventIdentifier e.bootID = true
  row : (∃ m, e.metric = some m ∧ m.Storable tenant agent) ∨
    (e.metric = none ∧ ∃ p, e.process = some p ∧ p.Storable tenant agent)

/-- `PID` has 32 bits. -/
def IngestBatch.Typed (batch : IngestBatch) : Prop :=
  ∀ e ∈ batch.events, ∀ p, e.process = some p → p.pid < 2 ^ 31

section Normal

variable {tenant agent : String} {now : ℤ}

theorem MetricRow.storable {m : MetricRow} (h : m.admitted tenant agent = true)
    (hc : ¬ m.counters.any (· > maxInt64)) :
    ({ m with tenantID := tenant, serverID := agent } : MetricRow).Storable tenant agent := by
  simp only [MetricRow.admitted, Bool.not_eq_true', Bool.or_eq_false_iff,
    decide_eq_false_iff_not, not_lt] at h
  obtain ⟨⟨⟨⟨-, hcores⟩, hcores'⟩, husers⟩, husers'⟩ := h
  have hsmall : -2 ^ 31 ≤ m.cpuCores ∧ m.cpuCores < 2 ^ 31 := by omega
  have hsmall' : -2 ^ 31 ≤ m.concurrentUsers ∧ m.concurrentUsers < 2 ^ 31 := by omega
  refine ⟨rfl, rfl, fun n hn => ?_, hsmall, hsmall'⟩
  by_contra hlt
  exact hc (List.any_eq_true.2 ⟨n, hn, by simpa using hlt⟩)

theorem ProcessRow.storable {p : ProcessRow} (h : p.admitted tenant agent = true)
    (hpid : p.pid < 2 ^ 31) :
    ({ p with tenantID := tenant, serverID := agent } : ProcessRow).Storable tenant agent := by
  simp only [ProcessRow.admitted, Bool.not_eq_true', Bool.or_eq_false_iff,
    decide_eq_false_iff_not, not_lt] at h
  obtain ⟨⟨-, hnonneg⟩, -⟩ := h
  have hsmall : -2 ^ 31 ≤ p.pid := by omega
  exact ⟨rfl, rfl, hsmall, hpid⟩

theorem normalizeIngest_storable {batch normal : IngestBatch} (hb : batch.Typed)
    (h : normalizeIngest batch tenant agent now = .ok normal) :
    ∀ e ∈ normal.events, e.Storable tenant agent := by
  intro e' he'
  obtain ⟨e, he, seen, hnorm⟩ := normalizeEvents_mem (normalizeIngest_ok h).2.1 e' he'
  obtain ⟨hid, hrow, -⟩ := normalizeEvent_ok hnorm
  obtain ⟨-, -, heventID, hbootID, -⟩ := normalizeRow_ok hrow
  simp only [IngestEvent.identified, Bool.not_eq_true', Bool.or_eq_false_iff,
    Bool.not_eq_false'] at hid
  refine ⟨heventID ▸ hid.1.1.1.1.1, hbootID ▸ hid.1.1.1.1.2, ?_⟩
  unfold normalizeRow at hrow
  split at hrow
  · next m hm =>
    split_ifs at hrow with hadm hc
    simp only [Except.ok.injEq, Prod.mk.injEq] at hrow
    obtain ⟨rfl, -⟩ := hrow
    exact .inl ⟨_, rfl, MetricRow.storable (by simpa using hadm) hc⟩
  · next p hm hp =>
    split_ifs at hrow with hadm
    simp only [Except.ok.injEq, Prod.mk.injEq] at hrow
    obtain ⟨rfl, -⟩ := hrow
    exact .inr ⟨hm, _, rfl, ProcessRow.storable (by simpa using hadm) (hb e he p hp)⟩
  · cases hrow

end Normal

/-! ## Statements that are refused -/

/-- There are ids left in both tables. -/
def Backend.Room (b : Backend) (db : HubDB) : Prop :=
  b = .postgres → db.lastMetricID < 2 ^ 31 ∧ db.lastProcessID < 2 ^ 31

theorem Backend.keeps_identifiers (b : Backend) {s : String}
    (h : ∀ c ∈ s.toList, identifierChar c = true) : b.Keeps s := by
  intro _ hnul
  exact absurd (h _ hnul) (by decide)

theorem Backend.keeps_eventIdentifier (b : Backend) {s : String} (h : eventIdentifier s = true) :
    b.Keeps s := by
  simp only [eventIdentifier, Bool.and_eq_true, List.all_eq_true] at h
  exact b.keeps_identifiers h.2

theorem chargeBudgets_rest {tenant agent : String} {policy : IngestPolicy} {now : ℤ} {size : ℕ}
    {tx tx' : HubDB} (h : chargeBudgets tenant agent policy now size tx = .ok tx') :
    ∃ bs, tx' = { tx with budgets := bs } := by
  obtain ⟨mid, hmid, h₁⟩ := chargeBudgets_ok h
  obtain ⟨bs, rfl⟩ := HubDB.chargeBudget_rest hmid
  obtain ⟨bs', rfl⟩ := HubDB.chargeBudget_rest h₁
  exact ⟨bs', rfl⟩

section Accept

variable (K : EventCodec) {b : Backend} {tenant agent : String} {policy : IngestPolicy} {now : ℤ}
  {e : IngestEvent} {tx tx' : HubDB}

theorem receiptArgs_held (h : e.Storable tenant agent) (now : ℤ) (body : List UInt8) :
    ((Backend.receiptArgs (receiptOf K tenant agent now e body)).all fun x => b.holds x.1 x.2) = true
      ↔ b.Keeps tenant ∧ b.Keeps agent := by
  have hhash : b.Keeps (K.contentHash body) := b.keeps_identifiers fun _ => identifierChar_hexEncode
  simp [Backend.receiptArgs, receiptOf, Backend.holds_text, Backend.holds_bigint, hhash,
    b.keeps_eventIdentifier h.eventID, b.keeps_eventIdentifier h.bootID]

/-- The backend takes the event's row, which leaves `tx'`. -/
@[mk_iff takes_iff]
structure Backend.Takes (b : Backend) (tenant agent : String) (e : IngestEvent) (tx' : HubDB) :
    Prop where
  tenant : b.Keeps tenant
  agent : b.Keeps agent
  texts : ∀ s ∈ e.texts, b.Keeps s
  room : b.Room tx'

theorem insertRow_metric {m : MetricRow} (hm : e.metric = some m) (hfit : m.Storable tenant agent) :
    b.insertRow tenant agent e tx
      = if (b.Keeps tenant ∧ b.Keeps agent ∧ b.Keeps m.hostname) ∧ b.idLeft tx.lastMetricID = true then
          (tx.insertMetric (metricRecord tenant agent m), .ok ())
        else (tx, .error .insertFailed) := by
  simp only [Backend.insertRow, hm, insertValues_metric hfit]
  by_cases hk : b.Keeps tenant ∧ b.Keeps agent ∧ b.Keeps m.hostname
  · rw [if_pos hk]
    simp only [hk, and_self, true_and]
  · rw [if_neg hk, if_neg fun h => hk h.1]

theorem insertRow_process {p : ProcessRow} (hm : e.metric = none) (hp : e.process = some p)
    (hfit : p.Storable tenant agent) :
    b.insertRow tenant agent e tx
      = if (b.Keeps tenant ∧ b.Keeps agent ∧ b.Keeps p.hostname ∧ b.Keeps p.name)
            ∧ b.idLeft tx.lastProcessID = true then
          (tx.insertProcess (processRecord tenant agent p), .ok ())
        else (tx, .error .insertFailed) := by
  simp only [Backend.insertRow, hm, hp, insertValues_process hfit]
  by_cases hk : b.Keeps tenant ∧ b.Keeps agent ∧ b.Keeps p.hostname ∧ b.Keeps p.name
  · rw [if_pos hk]
    simp only [hk, and_self, true_and]
  · rw [if_neg hk, if_neg fun h => hk h.1]

/-- The insert goes through as long as the backend takes the row. -/
theorem insertRow_backend (he : e.Storable tenant agent) (hroom : b.Room tx)
    (h : insertRow tenant agent e tx = .ok tx') :
    (b.Takes tenant agent e tx' → b.insertRow tenant agent e tx = (tx', .ok ())) ∧
      (¬ b.Takes tenant agent e tx' →
        b.insertRow tenant agent e tx = (tx, .error .insertFailed)) := by
  rcases he.row with ⟨m, hm, hfit⟩ | ⟨hm, p, hp, hfit⟩
  · simp only [insertRow, hm, Except.ok.injEq] at h
    subst h
    have hid : b.Room (tx.insertMetric (metricRecord tenant agent m))
        ↔ b.idLeft tx.lastMetricID = true := by
      cases b <;> simp_all [Backend.idLeft, Backend.Room, HubDB.insertMetric]
    have htakes : b.Takes tenant agent e (tx.insertMetric (metricRecord tenant agent m)) ↔
        (b.Keeps tenant ∧ b.Keeps agent ∧ b.Keeps m.hostname) ∧ b.idLeft tx.lastMetricID = true := by
      simp [Backend.takes_iff, IngestEvent.texts, hm, hid, and_assoc]
    rw [htakes, insertRow_metric hm hfit]
    exact ⟨fun hs => if_pos hs, fun hs => if_neg hs⟩
  · simp only [insertRow, hm, hp, Except.ok.injEq] at h
    subst h
    have hid : b.Room (tx.insertProcess (processRecord tenant agent p))
        ↔ b.idLeft tx.lastProcessID = true := by
      cases b <;> simp_all [Backend.idLeft, Backend.Room, HubDB.insertProcess]
    have htakes : b.Takes tenant agent e (tx.insertProcess (processRecord tenant agent p)) ↔
        (b.Keeps tenant ∧ b.Keeps agent ∧ b.Keeps p.hostname ∧ b.Keeps p.name)
          ∧ b.idLeft tx.lastProcessID = true := by
      simp [Backend.takes_iff, IngestEvent.texts, hm, hp, hid, and_assoc]
    rw [htakes, insertRow_process hm hp hfit]
    exact ⟨fun hs => if_pos hs, fun hs => if_neg hs⟩

/-- The backend takes the event, whose outcome is `o`: a duplicate has no row. -/
structure Backend.Serves (b : Backend) (tenant agent : String) (e : IngestEvent) (o : IngestOutcome)
    (tx' : HubDB) : Prop where
  tenant : b.Keeps tenant
  agent : b.Keeps agent
  texts : o.status = .accepted → ∀ s ∈ e.texts, b.Keeps s
  room : b.Room tx'

theorem acceptEvent_backend {o : IngestOutcome} (he : e.Storable tenant agent) (hroom : b.Room tx)
    (h : acceptEvent K tenant agent policy now e tx = .ok (tx', o)) :
    (b.Serves tenant agent e o tx' →
        b.acceptEvent K tenant agent policy now e tx = (tx', .ok o)) ∧
      (¬ b.Serves tenant agent e o tx' →
        ∃ tx₁ err, b.acceptEvent K tenant agent policy now e tx = (tx₁, .error err)) := by
  obtain ⟨body, hbody, hturn⟩ := acceptEvent_ok K h
  have hheld := receiptArgs_held (b := b) K he now body
  by_cases hk : b.Keeps tenant ∧ b.Keeps agent
  swap
  · have hargs := Bool.eq_false_iff.2 (mt hheld.1 hk)
    refine ⟨fun hs => absurd ⟨hs.tenant, hs.agent⟩ hk, fun _ => ⟨tx, .statement, ?_⟩⟩
    simp only [Backend.acceptEvent, hbody, hargs, Bool.not_false, if_true]
  have hargs := hheld.2 hk
  rcases hturn with ⟨hnew, rfl, hhash, rfl⟩ | ⟨tx₁, tx₂, hnew, hcharge, hinsert, rfl⟩
  · refine ⟨fun _ => ?_, fun hs => absurd ⟨hk.1, hk.2, fun ho => (by cases ho), hroom⟩ hs⟩
    simp only [Backend.acceptEvent, hbody, hargs, hnew, hhash, Bool.not_true, Bool.false_eq_true,
      if_false, if_true]
  have hroom₂ : b.Room tx₂ := by
    obtain ⟨bs, rfl⟩ := chargeBudgets_rest hcharge
    obtain ⟨rfl, -⟩ := HubDB.insertReceipt_some hnew
    exact hroom
  obtain ⟨htake, hrefuse⟩ := insertRow_backend he hroom₂ hinsert
  simp only [Backend.acceptEvent, hbody, hargs, hnew, hcharge, Bool.not_true, Bool.false_eq_true,
    if_false]
  constructor
  · intro hs
    rw [htake ⟨hs.tenant, hs.agent, hs.texts rfl, hs.room⟩]
  · intro hs
    rw [hrefuse fun ht => hs ⟨ht.tenant, ht.agent, fun _ => ht.texts, ht.room⟩]
    exact ⟨tx₂, _, rfl⟩

/-- What every statement of the loop keeps. -/
structure Backend.Kept (b : Backend) (tenant agent : String) (P : HubDB → Prop) : Prop where
  tables : ∀ tx rs bs, P tx → P { tx with receipts := rs, budgets := bs }
  metric : ∀ tx m, m.Storable tenant agent → b.idLeft tx.lastMetricID = true → P tx →
    P (tx.insertMetric (metricRecord tenant agent m))
  process : ∀ tx p, p.Storable tenant agent → b.idLeft tx.lastProcessID = true → P tx →
    P (tx.insertProcess (processRecord tenant agent p))

variable {P : HubDB → Prop}

theorem Backend.Kept.insertRow (hkept : b.Kept tenant agent P) (he : e.Storable tenant agent)
    (hP : P tx) : P (b.insertRow tenant agent e tx).1 := by
  rcases he.row with ⟨m, hm, hfit⟩ | ⟨hm, p, hp, hfit⟩
  · rw [insertRow_metric hm hfit]
    split_ifs with hs
    · exact hkept.metric tx m hfit hs.2 hP
    · exact hP
  · rw [insertRow_process hm hp hfit]
    split_ifs with hs
    · exact hkept.process tx p hfit hs.2 hP
    · exact hP

theorem Backend.Kept.acceptEvent (hkept : b.Kept tenant agent P) (policy : IngestPolicy) (now : ℤ)
    (he : e.Storable tenant agent) (hP : P tx) : P (b.acceptEvent K tenant agent policy now e tx).1 := by
  unfold Backend.acceptEvent
  split
  · exact hP
  next body hbody =>
  dsimp only
  split
  · exact hP
  split
  · split <;> exact hP
  next tx₁ hnew =>
  have hP₁ : P tx₁ := by
    obtain ⟨rfl, -⟩ := HubDB.insertReceipt_some hnew
    exact hkept.tables tx _ tx.budgets hP
  split
  · exact hP₁
  next tx₂ hcharge =>
  have hP₂ : P tx₂ := by
    obtain ⟨bs, rfl⟩ := chargeBudgets_rest hcharge
    exact hkept.tables tx₁ tx₁.receipts bs hP₁
  have hinsert := hkept.insertRow he hP₂
  split <;> next hr => simpa only [hr] using hinsert

/-- The loop keeps it too, whether it goes through or not. -/
theorem Backend.Kept.acceptEvents (hkept : b.Kept tenant agent P) (policy : IngestPolicy) (now : ℤ)
    {es : List IngestEvent} (he : ∀ e ∈ es, e.Storable tenant agent) (hP : P tx) :
    P (b.acceptEvents K tenant agent policy now es tx).1 := by
  induction es generalizing tx with
  | nil => exact hP
  | cons e es ih =>
    have hfirst := hkept.acceptEvent K policy now (he e List.mem_cons_self) hP
    unfold Backend.acceptEvents
    split
    · next hr => simpa only [hr] using hfirst
    next tx₁ o hr =>
    rw [hr] at hfirst
    have hnext := ih (fun e' he' => he e' (List.mem_cons_of_mem e he')) hfirst
    split <;> next hr' => simpa only [hr'] using hnext

/-- SQLite takes everything. -/
theorem acceptEvents_sqlite {es : List IngestEvent} {os : List IngestOutcome}
    (he : ∀ e ∈ es, e.Storable tenant agent)
    (h : acceptEvents K tenant agent policy now es tx = .ok (tx', os)) :
    Backend.sqlite.acceptEvents K tenant agent policy now es tx = (tx', .ok os) := by
  have hkeeps : ∀ s, Backend.sqlite.Keeps s := fun s => nofun
  have hroom : ∀ tx, Backend.sqlite.Room tx := fun tx => nofun
  induction es generalizing tx os with
  | nil =>
    simp only [acceptEvents, Except.ok.injEq, Prod.mk.injEq] at h
    obtain ⟨rfl, rfl⟩ := h
    rfl
  | cons e es ih =>
    obtain ⟨tx₁, o, os', h₁, h₂, rfl⟩ := acceptEvents_cons K h
    have hfirst := (acceptEvent_backend K (he e List.mem_cons_self) (hroom tx) h₁).1
      ⟨hkeeps _, hkeeps _, fun _ s _ => hkeeps s, hroom _⟩
    have hrest := ih (fun e' he' => he e' (List.mem_cons_of_mem e he')) h₂
    rw [Backend.acceptEvents, hfirst]
    simp only [hrest]

end Accept

/-! ## Tables that can be read -/

/-- The ids of a table are different, and were given out by its counter. -/
structure Numbered {α : Type} (t : List (Stored α)) (last : ℕ) : Prop where
  nodup : (t.map (·.id)).Nodup
  range : ∀ r ∈ t, 1 ≤ r.id ∧ r.id ≤ last

theorem Numbered.append {α : Type} {t : List (Stored α)} {last : ℕ} (h : Numbered t last) (row : α) :
    Numbered (t ++ [⟨last + 1, row⟩]) (last + 1) where
  nodup := by
    rw [List.map_append]
    refine List.nodup_append.2 ⟨h.nodup, List.nodup_singleton _, fun i hi j hj => ?_⟩
    obtain ⟨r, hr, rfl⟩ := List.mem_map.1 hi
    obtain rfl := List.mem_singleton.1 hj
    exact (Nat.lt_succ_of_le (h.range r hr).2).ne
  range r hr := by
    rcases List.mem_append.1 hr with hr | hr
    · exact ⟨(h.range r hr).1, (h.range r hr).2.trans (Nat.le_succ last)⟩
    · rw [List.mem_singleton.1 hr]
      exact ⟨Nat.le_add_left 1 last, le_rfl⟩

theorem Numbered.mono {α : Type} {t : List (Stored α)} {last last' : ℕ} (h : Numbered t last)
    (hle : last ≤ last') : Numbered t last' :=
  ⟨h.nodup, fun r hr => ⟨(h.range r hr).1, (h.range r hr).2.trans hle⟩⟩

/-- Every row of the data tables was stored by `AcceptIngest`. -/
structure Backend.Sound (b : Backend) (db : HubDB) : Prop where
  metrics : ∀ r ∈ db.metrics, ∃ tenant agent m, m.Storable tenant agent ∧
    r.row = metricRecord tenant agent m
  metricIDs : Numbered db.metrics db.lastMetricID
  processes : ∀ r ∈ db.processes, ∃ tenant agent p, p.Storable tenant agent ∧
    r.row = processRecord tenant agent p
  processIDs : Numbered db.processes db.lastProcessID
  room : b.Room db

/-- No row is lost, and no id is given out again. -/
structure HubDB.Grows (db db' : HubDB) : Prop where
  metrics : db.metrics <+: db'.metrics
  processes : db.processes <+: db'.processes
  lastMetricID : db.lastMetricID ≤ db'.lastMetricID
  lastProcessID : db.lastProcessID ≤ db'.lastProcessID

theorem HubDB.Grows.refl (db : HubDB) : db.Grows db :=
  ⟨List.prefix_rfl, List.prefix_rfl, le_rfl, le_rfl⟩

theorem HubDB.Grows.trans {db db' db'' : HubDB} (h : db.Grows db') (h' : db'.Grows db'') :
    db.Grows db'' :=
  ⟨h.metrics.trans h'.metrics, h.processes.trans h'.processes,
    h.lastMetricID.trans h'.lastMetricID, h.lastProcessID.trans h'.lastProcessID⟩

theorem Backend.Room.earlier {b : Backend} {db db' : HubDB} (h : b.Room db') (hg : db.Grows db') :
    b.Room db := fun hb =>
  ⟨hg.lastMetricID.trans_lt (h hb).1, hg.lastProcessID.trans_lt (h hb).2⟩

theorem Backend.Sound.empty (b : Backend) : b.Sound .empty where
  metrics := by simp [HubDB.empty]
  metricIDs := ⟨List.nodup_nil, by simp [HubDB.empty]⟩
  processes := by simp [HubDB.empty]
  processIDs := ⟨List.nodup_nil, by simp [HubDB.empty]⟩
  room _ := by simp [HubDB.empty]

theorem Backend.kept_grows (b : Backend) (tenant agent : String) (db : HubDB) :
    b.Kept tenant agent db.Grows where
  tables _ _ _ h := ⟨h.metrics, h.processes, h.lastMetricID, h.lastProcessID⟩
  metric _ _ _ _ h := ⟨h.metrics.trans (List.prefix_append _ _), h.processes,
    h.lastMetricID.trans (Nat.le_succ _), h.lastProcessID⟩
  process _ _ _ _ h := ⟨h.metrics, h.processes.trans (List.prefix_append _ _), h.lastMetricID,
    h.lastProcessID.trans (Nat.le_succ _)⟩

theorem Backend.kept_sound (b : Backend) (tenant agent : String) : b.Kept tenant agent b.Sound where
  tables _ _ _ h := ⟨h.metrics, h.metricIDs, h.processes, h.processIDs, h.room⟩
  metric tx m hm hid h := by
    refine ⟨fun r hr => ?_, h.metricIDs.append _, h.processes, h.processIDs, ?_⟩
    · rcases List.mem_append.1 hr with hr | hr
      · exact h.metrics r hr
      · exact ⟨tenant, agent, m, hm, by rw [List.mem_singleton.1 hr]⟩
    · rintro rfl
      exact ⟨by simpa [Backend.idLeft, HubDB.insertMetric] using hid, (h.room rfl).2⟩
  process tx p hp hid h := by
    refine ⟨h.metrics, h.metricIDs, fun r hr => ?_, h.processIDs.append _, ?_⟩
    · rcases List.mem_append.1 hr with hr | hr
      · exact h.processes r hr
      · exact ⟨tenant, agent, p, hp, by rw [List.mem_singleton.1 hr]⟩
    · rintro rfl
      exact ⟨(h.room rfl).1, by simpa [Backend.idLeft, HubDB.insertProcess] using hid⟩

section Runs

variable (K : EventCodec) {b : Backend} {db : HubDB}

theorem Backend.rollback_sound {tx : HubDB} (h : b.Sound db) (hg : db.Grows tx) (hroom : b.Room tx) :
    b.Sound (b.rollback db tx) ∧ db.Grows (b.rollback db tx) := by
  cases b with
  | sqlite => exact ⟨h, .refl db⟩
  | postgres =>
    exact ⟨⟨h.metrics, h.metricIDs.mono hg.lastMetricID, h.processes,
      h.processIDs.mono hg.lastProcessID, hroom⟩,
      ⟨List.prefix_rfl, List.prefix_rfl, hg.lastMetricID, hg.lastProcessID⟩⟩

def IngestCall.Typed : IngestCall → Prop
  | accept _ _ batch _ _ => batch.Typed
  | cleanup _ _ => True

theorem Backend.step_sound {c : IngestCall} (hc : c.Typed) (h : b.Sound db) :
    b.Sound (b.step K db c) ∧ db.Grows (b.step K db c) := by
  cases c with
  | cleanup now second =>
    unfold Backend.step cleanupIngest
    dsimp only
    split_ifs
    · exact ⟨⟨h.metrics, h.metricIDs, h.processes, h.processIDs, h.room⟩,
        ⟨List.prefix_rfl, List.prefix_rfl, le_rfl, le_rfl⟩⟩
    · exact ⟨⟨h.metrics, h.metricIDs, h.processes, h.processIDs, h.room⟩,
        ⟨List.prefix_rfl, List.prefix_rfl, le_rfl, le_rfl⟩⟩
  | accept tenant agent batch policy now =>
    unfold Backend.step Backend.acceptIngest
    dsimp only
    split
    · exact ⟨h, .refl db⟩
    next normal hnormal =>
    split
    · exact ⟨h, .refl db⟩
    have he := normalizeIngest_storable hc hnormal
    have hsound := (b.kept_sound tenant agent).acceptEvents K policy now he h
    have hgrows := (b.kept_grows tenant agent db).acceptEvents K policy now he
      (.refl db)
    split
    · next tx err hr =>
      rw [hr] at hsound hgrows
      exact b.rollback_sound h hgrows hsound.room
    · next tx os hr =>
      rw [hr] at hsound hgrows
      exact ⟨hsound, hgrows⟩

theorem Backend.run_sound {calls : List IngestCall} (hc : ∀ c ∈ calls, c.Typed) (h : b.Sound db) :
    b.Sound (b.run K calls db) ∧ db.Grows (b.run K calls db) := by
  induction calls generalizing db with
  | nil => exact ⟨h, .refl db⟩
  | cons c calls ih =>
    obtain ⟨hs, hg⟩ := b.step_sound K (hc c List.mem_cons_self) h
    obtain ⟨hs', hg'⟩ := ih (fun c' hc' => hc c' (List.mem_cons_of_mem c hc')) hs
    exact ⟨hs', hg.trans hg'⟩

/-- The backend takes every event of a loop with these outcomes, which leaves `tx'`. -/
structure Backend.ServesAll (b : Backend) (tenant agent : String) (es : List IngestEvent)
    (os : List IngestOutcome) (tx' : HubDB) : Prop where
  scope : es ≠ [] → b.Keeps tenant ∧ b.Keeps agent
  texts : ∀ e ∈ acceptedEvents es os, ∀ s ∈ e.texts, b.Keeps s
  room : b.Room tx'

variable {tenant agent : String} {policy : IngestPolicy} {now : ℤ} {es : List IngestEvent}
  {os : List IngestOutcome} {tx tx' : HubDB}

theorem acceptEvents_grows (he : ∀ e ∈ es, e.Storable tenant agent)
    (h : acceptEvents K tenant agent policy now es tx = .ok (tx', os)) : tx.Grows tx' := by
  have hgrows := (Backend.sqlite.kept_grows tenant agent tx).acceptEvents K policy now he
    (.refl tx)
  rwa [acceptEvents_sqlite K he h] at hgrows

theorem Backend.servesAll_cons {e : IngestEvent} {o : IngestOutcome} {tx₁ : HubDB}
    (hg : tx₁.Grows tx') : b.ServesAll tenant agent (e :: es) (o :: os) tx'
      ↔ b.Serves tenant agent e o tx₁ ∧ b.ServesAll tenant agent es os tx' := by
  constructor
  · intro h
    obtain ⟨ht, ha⟩ := h.scope (List.cons_ne_nil e es)
    have htexts := h.texts
    refine ⟨⟨ht, ha, fun ho => ?_, h.room.earlier hg⟩, fun _ => ⟨ht, ha⟩, fun e' he' => ?_, h.room⟩
    · exact htexts e (by simp [acceptedEvents, ho])
    · refine htexts e' ?_
      unfold acceptedEvents
      split_ifs
      · exact List.mem_cons_of_mem e he'
      · exact he'
  · rintro ⟨hfirst, hrest⟩
    refine ⟨fun _ => ⟨hfirst.tenant, hfirst.agent⟩, fun e' he' => ?_, hrest.room⟩
    unfold acceptedEvents at he'
    split_ifs at he' with ho
    · rcases List.mem_cons.1 he' with rfl | he'
      · exact hfirst.texts ho
      · exact hrest.texts e' he'
    · exact hrest.texts e' he'

/-- The loop goes through as long as the backend takes every event. -/
theorem acceptEvents_backend (he : ∀ e ∈ es, e.Storable tenant agent) (hroom : b.Room tx)
    (h : acceptEvents K tenant agent policy now es tx = .ok (tx', os)) :
    (b.ServesAll tenant agent es os tx' →
        b.acceptEvents K tenant agent policy now es tx = (tx', .ok os)) ∧
      (¬ b.ServesAll tenant agent es os tx' →
        ∃ tx₁ err, b.acceptEvents K tenant agent policy now es tx = (tx₁, .error err)) := by
  induction es generalizing tx os with
  | nil =>
    simp only [acceptEvents, Except.ok.injEq, Prod.mk.injEq] at h
    obtain ⟨rfl, rfl⟩ := h
    exact ⟨fun _ => rfl, fun hs => absurd ⟨fun hne => absurd rfl hne, by simp [acceptedEvents], hroom⟩ hs⟩
  | cons e es ih =>
    obtain ⟨tx₁, o, os', h₁, h₂, rfl⟩ := acceptEvents_cons K h
    have he' : ∀ e' ∈ es, e'.Storable tenant agent := fun e' he' => he e' (List.mem_cons_of_mem e he')
    obtain ⟨hserve, hrefuse⟩ := acceptEvent_backend K (he e List.mem_cons_self) hroom h₁
    rw [Backend.servesAll_cons (acceptEvents_grows K he' h₂), Backend.acceptEvents]
    by_cases hs : b.Serves tenant agent e o tx₁
    · obtain ⟨hall, hnot⟩ := ih he' hs.room h₂
      rw [hserve hs]
      refine ⟨fun h => by simp only [hall h.2], fun h => ?_⟩
      obtain ⟨tx₃, err, hr⟩ := hnot fun hrest => h ⟨hs, hrest⟩
      exact ⟨tx₃, err, by simp only [hr]⟩
    · obtain ⟨tx₃, err, hr⟩ := hrefuse hs
      rw [hr]
      exact ⟨fun h => absurd h.1 hs, fun _ => ⟨tx₃, err, rfl⟩⟩

/-- What Postgres needs to take them: no text has a NUL, and the ids suffice. -/
theorem Backend.servesAll_iff (hne : es ≠ []) : b.ServesAll tenant agent es os tx' ↔
    (b = .postgres →
      (∀ s ∈ tenant :: agent :: (acceptedEvents es os).flatMap IngestEvent.texts, '\x00' ∉ s.toList) ∧
      tx'.lastMetricID < 2 ^ 31 ∧ tx'.lastProcessID < 2 ^ 31) := by
  constructor
  · intro h hb
    refine ⟨fun s hs => ?_, h.room hb⟩
    simp only [List.mem_cons, List.mem_flatMap] at hs
    rcases hs with rfl | rfl | ⟨e', he', hs⟩
    · exact (h.scope hne).1 hb
    · exact (h.scope hne).2 hb
    · exact h.texts e' he' s hs hb
  · intro h
    refine ⟨fun _ => ⟨fun hb => (h hb).1 _ (by simp), fun hb => (h hb).1 _ (by simp)⟩,
      fun e' he' s hs hb => (h hb).1 s ?_, fun hb => (h hb).2⟩
    simp only [List.mem_cons, List.mem_flatMap]
    exact .inr (.inr ⟨e', he', hs⟩)

/-- A transaction of the store goes through on the backend as long as it takes every event. -/
theorem acceptIngest_backend {batch normal : IngestBatch} (hbatch : batch.Typed) (hroom : b.Room db)
    (hnormal : normalizeIngest batch tenant agent now = .ok normal) (hpolicy : policy.validate = .ok ())
    (h : acceptEvents K tenant agent policy now normal.events db = .ok (tx', os)) :
    (b.ServesAll tenant agent normal.events os tx' →
        b.acceptIngest K tenant agent batch policy now db = (tx', .ok os)) ∧
      (¬ b.ServesAll tenant agent normal.events os tx' →
        ∃ db' err, b.acceptIngest K tenant agent batch policy now db = (db', .error err)) := by
  obtain ⟨hserves, hrefuse⟩ := acceptEvents_backend K (normalizeIngest_storable hbatch hnormal) hroom h
  constructor
  · intro hs
    simp only [Backend.acceptIngest, hnormal, hpolicy, hserves hs]
  · intro hs
    obtain ⟨tx, err, hr⟩ := hrefuse hs
    exact ⟨b.rollback db tx, err, by simp only [Backend.acceptIngest, hnormal, hpolicy, hr]⟩

end Runs

/-! ## Reads -/

theorem mapM_of_forall {α β : Type} {f : α → Option β} {g : α → β} {l : List α}
    (h : ∀ a ∈ l, f a = some (g a)) : l.mapM f = some (l.map g) := by
  induction l with
  | nil => rfl
  | cons a l ih =>
    rw [List.mapM_cons, h a List.mem_cons_self, ih fun a' ha' => h a' (List.mem_cons_of_mem a ha')]
    rfl

theorem scanMetric_stored {tenant agent : String} {m : MetricRow} (h : m.Storable tenant agent) (id : ℕ) :
    scanMetric ⟨id, metricRecord tenant agent m⟩ = m.readBack id :=
  Option.some.inj (scanMetric_record h .postgres id)

theorem scanProcess_stored {tenant agent : String} {p : ProcessRow} (h : p.Storable tenant agent)
    (id : ℕ) : scanProcess ⟨id, processRecord tenant agent p⟩ = p.readBack id := by
  simp [scanProcess, processRecord, ProcessRow.readBack, h.tenantID, h.serverID]

section Reads

variable {b : Backend} {db : HubDB} {q : MetricQuery}

theorem Backend.read_eq {α ρ : Type} {C : Columns α} {scan : Stored α → Option ρ} {f : Stored α → ρ}
    {t : List (Stored α)} (h : ∀ r ∈ t, scan r = some (f r)) (ht : requireTenant q.tenantID = true)
    (hk : b.Keeps q.tenantID) (hk' : b.Keeps q.serverID) :
    b.read C scan q t = .ok ((C.select q false t).map f) := by
  have hmap : (C.select q false t).mapM scan = some ((C.select q false t).map f) := by
    refine mapM_of_forall fun r hr => h r ?_
    exact (Columns.mem_ordered.1 (List.mem_of_mem_take hr)).1
  simp [Backend.read, ht, b.holds_text, hk, hk', hmap]

/-- What the store reads, both backends read. -/
theorem Backend.Sound.queryMetricsQ (h : b.Sound db) (ht : requireTenant q.tenantID = true)
    (hk : b.Keeps q.tenantID) (hk' : b.Keeps q.serverID) :
    b.queryMetricsQ q db = .ok ((metricColumns.select q false db.metrics).map WMonitor.scanMetric) := by
  refine Backend.read_eq (fun r hr => ?_) ht hk hk'
  obtain ⟨tenant, agent, m, hm, hrow⟩ := h.metrics r hr
  obtain ⟨id, row⟩ := r
  obtain rfl : row = _ := hrow
  rw [scanMetric_record hm, scanMetric_stored hm]

theorem Backend.Sound.queryProcessesQ (h : b.Sound db) (ht : requireTenant q.tenantID = true)
    (hk : b.Keeps q.tenantID) (hk' : b.Keeps q.serverID) :
    b.queryProcessesQ q db
      = .ok ((processColumns.select q false db.processes).map WMonitor.scanProcess) := by
  refine Backend.read_eq (fun r hr => ?_) ht hk hk'
  obtain ⟨tenant, agent, p, hp, hrow⟩ := h.processes r hr
  obtain ⟨id, row⟩ := r
  obtain rfl : row = _ := hrow
  rw [scanProcess_record hp, scanProcess_stored hp]

end Reads

/-- The read of one row: from its second on, past the id before its own. -/
def oneRow {α : Type} (C : Columns α) (r : Stored α) : MetricQuery where
  since := C.timestamp r.row * second
  untilTime := zeroTime
  tenantID := C.tenantID r.row
  serverID := ""
  limit := 1
  afterUnix := C.timestamp r.row
  afterID := r.id - 1

theorem select_oneRow {α : Type} {C : Columns α} {t : List (Stored α)} {last : ℕ} {r : Stored α}
    (h : Numbered t last) (hr : r ∈ t) : C.select (oneRow C r) false t = [r] := by
  have hid := (h.range r hr).1
  have hmeets : C.meets (oneRow C r) false r = true := by
    rw [Columns.meets_iff]
    refine ⟨(unix_mul_second _).le, .inl rfl, .inr rfl, .inl rfl, .inr (.inr ⟨rfl, ?_⟩)⟩
    simp [oneRow]
  have hmem : r ∈ C.ordered (oneRow C r) false t := Columns.mem_ordered.2 ⟨hr, hmeets⟩
  have hfirst : ∀ r' ∈ C.ordered (oneRow C r) false t, C.Before r r' := by
    intro r' hr'
    obtain ⟨hmem', hm'⟩ := Columns.mem_ordered.1 hr'
    have hid' := (h.range r' hmem').1
    rw [Columns.meets_iff] at hm'
    simp only [oneRow, unix_mul_second] at hm'
    unfold Columns.Before
    omega
  have hsorted := Columns.ordered_behind (C := C) h.nodup (oneRow C r) false
  unfold Columns.select
  cases hord : C.ordered (oneRow C r) false t with
  | nil => simp [hord] at hmem
  | cons a rest =>
    rw [hord] at hmem hfirst hsorted
    have hone : boundedLimit (oneRow C r).limit = 1 := rfl
    rw [hone, List.take_succ_cons, List.take_zero]
    rcases List.mem_cons.1 hmem with rfl | hmem
    · rfl
    · -- Otherwise the first row would be behind `r` and before it.
      have hbehind := (List.pairwise_cons.1 hsorted).1 r hmem
      exact absurd (hbehind.of_before (hfirst a List.mem_cons_self)) (Columns.Behind.irrefl a)

/-! ## Round trips -/

/-- Every query of the tenant is answered, gives no other row under the id of `row`, and some query gives
just `row`. -/
structure Backend.Returns {ρ : Type} (b : Backend) (query : MetricQuery → Except BackendError (List ρ))
    (id : ρ → ℤ) (tenant : String) (row : ρ) : Prop where
  answers : ∀ q, q.tenantID = tenant → b.Keeps q.serverID →
    ∃ rows, query q = .ok rows ∧ ∀ r ∈ rows, id r = id row → r = row
  found : ∃ q, q.tenantID = tenant ∧ query q = .ok [row]

/-- The event's row is read back. -/
def Backend.ReadsBack (b : Backend) (db : HubDB) (e : IngestEvent) : Prop :=
  match e.metric, e.process with
  | some m, _ => ∃ id, b.Returns (b.queryMetricsQ · db) (·.id) m.tenantID (m.readBack id)
  | none, some p => ∃ id, b.Returns (b.queryProcessesQ · db) (·.id) p.tenantID (p.readBack id)
  | none, none => False

section RoundTrips

variable {b : Backend} {tenant agent : String}

theorem Backend.returns_of_select {α ρ : Type} {C : Columns α} {t : List (Stored α)} {last : ℕ}
    {r : Stored α} {f : Stored α → ρ} {id : ρ → ℤ} {query : MetricQuery → Except BackendError (List ρ)}
    (hquery : ∀ q, q.tenantID = tenant → b.Keeps q.serverID →
      query q = .ok ((C.select q false t).map f))
    (hid : ∀ r, id (f r) = r.id) (hn : Numbered t last) (hr : r ∈ t)
    (htenant : C.tenantID r.row = tenant) : b.Returns query id tenant (f r) where
  answers q hq hk := by
    refine ⟨_, hquery q hq hk, fun x hx hsame => ?_⟩
    obtain ⟨r', hr', rfl⟩ := List.mem_map.1 hx
    rw [hid, hid, Nat.cast_inj] at hsame
    have hmem := (Columns.mem_ordered.1 (List.mem_of_mem_take hr')).1
    rw [List.inj_on_of_nodup_map hn.nodup hmem hr hsame]
  found := by
    refine ⟨oneRow C r, htenant, ?_⟩
    rw [hquery (oneRow C r) htenant (b.keeps_identifiers (by simp [oneRow])), select_oneRow hn hr]
    rfl

theorem Backend.Sound.readsBack {db : HubDB} {e : IngestEvent} (h : b.Sound db)
    (he : e.Storable tenant agent) (ht : requireTenant tenant = true) (hk : b.Keeps tenant)
    (hmetric : ∀ row, metricOf tenant agent e = some row → ∃ r ∈ db.metrics, r.row = row)
    (hprocess : ∀ row, processOf tenant agent e = some row → ∃ r ∈ db.processes, r.row = row) :
    b.ReadsBack db e := by
  unfold Backend.ReadsBack
  rcases he.row with ⟨m, hm, hfit⟩ | ⟨hm, p, hp, hfit⟩
  · obtain ⟨⟨id, row⟩, hr, hrow⟩ := hmetric _ (by rw [metricOf, hm, Option.map_some])
    obtain rfl : row = _ := hrow
    rw [hm]
    refine ⟨id, ?_⟩
    rw [← scanMetric_stored hfit, hfit.tenantID]
    refine Backend.returns_of_select (C := metricColumns) (fun q hq hs => ?_) (fun _ => rfl)
      h.metricIDs hr rfl
    exact h.queryMetricsQ (hq ▸ ht) (hq ▸ hk) hs
  · obtain ⟨⟨id, row⟩, hr, hrow⟩ := hprocess _ (by
      rw [processOf, hm, hp, Option.isNone_none, if_pos rfl, Option.map_some])
    obtain rfl : row = _ := hrow
    rw [hm, hp]
    refine ⟨id, ?_⟩
    rw [← scanProcess_stored hfit, hfit.tenantID]
    refine Backend.returns_of_select (C := processColumns) (fun q hq hs => ?_) (fun _ => rfl)
      h.processIDs hr rfl
    exact h.queryProcessesQ (hq ▸ ht) (hq ▸ hk) hs

theorem normalizeIngest_scope {batch normal : IngestBatch} {now : ℤ}
    (h : normalizeIngest batch tenant agent now = .ok normal) :
    requireTenant tenant = true ∧ normal.events ≠ [] := by
  unfold normalizeIngest at h
  split_ifs at h with hc
  simp only [not_or] at hc
  refine ⟨by simpa using hc.1, ?_⟩
  split at h
  · cases h
  next es hes =>
  cases h
  intro hnil
  obtain ⟨e, he⟩ := List.exists_mem_of_length_pos (Nat.pos_of_ne_zero hc.2.2.2.2.1)
  obtain ⟨n, hn, -⟩ := mem_normalizeEvents hes he
  rw [show es = [] from hnil] at hn
  exact absurd hn List.not_mem_nil

end RoundTrips

/-- Take any history of calls on a backend, and a batch that `NormalizeIngest` admits and the budgets and
the receipts leave room for. The backend accepts it, and every event it accepts can be read back after any
later calls, as it was but for the id and the fraction of its second, just if it is SQLite, or neither the
tenant, the agent nor a text of an accepted row has a NUL and the ids suffice. -/
theorem acceptIngest_read_back_iff (K : EventCodec) (b : Backend) {calls : List IngestCall}
    (hcalls : ∀ c ∈ calls, c.Typed) {tenant agent : String} {batch normal : IngestBatch}
    {policy : IngestPolicy} {now : ℤ} {outcomes : List IngestOutcome} (hbatch : batch.Typed)
    (hnormal : normalizeIngest batch tenant agent now = .ok normal)
    (hok : ((b.run K calls .empty).acceptIngest K tenant agent batch policy now).2 = .ok outcomes) :
    ((b.acceptIngest K tenant agent batch policy now (b.run K calls .empty)).2 = .ok outcomes ∧
      ∀ later, (∀ c ∈ later, c.Typed) → ∀ e ∈ acceptedEvents normal.events outcomes,
        b.ReadsBack (b.run K later
          (b.acceptIngest K tenant agent batch policy now (b.run K calls .empty)).1) e)
    ↔ (b = .postgres →
      (∀ s ∈ tenant :: agent :: (acceptedEvents normal.events outcomes).flatMap IngestEvent.texts,
        '\x00' ∉ s.toList) ∧
      ((b.run K calls .empty).acceptIngest K tenant agent batch policy now).1.lastMetricID < 2 ^ 31 ∧
      ((b.run K calls .empty).acceptIngest K tenant agent batch policy now).1.lastProcessID
        < 2 ^ 31) := by
  obtain ⟨hsound, -⟩ := b.run_sound K hcalls (.empty b)
  generalize b.run K calls .empty = db at hok hsound ⊢
  obtain ⟨ht, hne⟩ := normalizeIngest_scope hnormal
  have he := normalizeIngest_storable hbatch hnormal
  rcases acceptIngest_cases K tenant agent batch policy now db with
    ⟨⟨err, herr⟩, -⟩ | ⟨batch', tx', os, hn, hv, ha, hr⟩
  · rw [herr] at hok
    cases hok
  obtain rfl : normal = batch' := Except.ok.inj (hnormal.symm.trans hn)
  rw [hr] at hok ⊢
  obtain rfl : os = outcomes := Except.ok.inj hok
  rw [← Backend.servesAll_iff hne]
  obtain ⟨hserves, hrefuse⟩ := acceptIngest_backend K hbatch hsound.room hnormal hv ha
  constructor
  · rintro ⟨hfine, -⟩
    by_contra hs
    obtain ⟨db', err, hr'⟩ := hrefuse hs
    rw [hr'] at hfine
    cases hfine
  · intro hs
    have hsound' : b.Sound tx' := by
      have hstep := (b.step_sound K (c := .accept tenant agent batch policy now) hbatch hsound).1
      rwa [Backend.step, hserves hs] at hstep
    rw [hserves hs]
    refine ⟨rfl, fun later hlater e hmem => ?_⟩
    obtain ⟨hlast, hgrows⟩ := b.run_sound K hlater hsound'
    have hadds := acceptEvents_adds K ha
    refine hlast.readsBack (he e (acceptedEvents_sub hmem)) ht (hs.scope hne).1 (fun row hrow => ?_)
      fun row hrow => ?_
    · have hin : row ∈ tx'.metrics.map (·.row) := by
        rw [hadds.metrics]
        exact List.mem_append_right _ (List.mem_filterMap.2 ⟨e, hmem, hrow⟩)
      obtain ⟨r, hr, rfl⟩ := List.mem_map.1 hin
      exact ⟨r, hgrows.metrics.subset hr, rfl⟩
    · have hin : row ∈ tx'.processes.map (·.row) := by
        rw [hadds.processes]
        exact List.mem_append_right _ (List.mem_filterMap.2 ⟨e, hmem, hrow⟩)
      obtain ⟨r, hr, rfl⟩ := List.mem_map.1 hin
      exact ⟨r, hgrows.processes.subset hr, rfl⟩

/-- The sample event as `NormalizeIngest` leaves it. -/
def normalSample : IngestEvent :=
  { sampleEvent with metric := some { sampleMetric with tenantID := "tenant-a" } }

theorem acceptIngest_read_back_sample :
    (Backend.postgres.acceptIngest sampleCodec "tenant-a" "agent-a" ⟨ingestSchema, [sampleEvent]⟩
        defaultIngestPolicy sampleMetric.timestamp .empty).2 = .ok [⟨"event-1", .accepted⟩] ∧
      Backend.postgres.ReadsBack (Backend.postgres.acceptIngest sampleCodec "tenant-a" "agent-a"
        ⟨ingestSchema, [sampleEvent]⟩ defaultIngestPolicy sampleMetric.timestamp .empty).1
        normalSample := by
  have htyped : (⟨ingestSchema, [sampleEvent]⟩ : IngestBatch).Typed := by
    intro e he p hp
    obtain rfl := List.mem_singleton.1 he
    cases hp
  have hnormal : normalizeIngest ⟨ingestSchema, [sampleEvent]⟩ "tenant-a" "agent-a"
      sampleMetric.timestamp = .ok ⟨ingestSchema, [normalSample]⟩ := by
    decide +kernel
  have hok : ((Backend.postgres.run sampleCodec [] .empty).acceptIngest sampleCodec "tenant-a" "agent-a"
      ⟨ingestSchema, [sampleEvent]⟩ defaultIngestPolicy sampleMetric.timestamp).2
        = .ok [⟨"event-1", .accepted⟩] := by
    decide +kernel
  obtain ⟨hfine, hback⟩ := (acceptIngest_read_back_iff sampleCodec .postgres (by simp) htyped hnormal
    hok).2 fun _ => ⟨by decide +kernel, by decide +kernel⟩
  exact ⟨hfine, hback [] (by simp) normalSample (by decide +kernel)⟩

/-- A metric of a host whose name has a NUL. -/
def nulEvent : IngestEvent :=
  { sampleEvent with metric := some { sampleMetric with hostname := "web\x001" } }

/-- The JSON text of that event once normalised for `tenant-a`, and its digest. -/
def nulCodec : EventCodec where
  marshal _ := .ok (
    "\x7b\"event_id\":\"event-1\",\"boot_id\":\"boot-1\",\"sequence\":1," ++
    "\"metric\":\x7b\"ID\":0,\"Timestamp\":\"2026-01-01T00:00:00Z\"," ++
    "\"TenantID\":\"tenant-a\",\"ServerID\":\"agent-a\",\"Hostname\":\"web\\u00001\"," ++
    "\"CPUPct\":20,\"MemPct\":30,\"DiskFreeGB\":0,\"NetSentBytes\":0," ++
    "\"NetRecvBytes\":0,\"CPUCores\":0,\"MemTotalGB\":0,\"DiskTotalGB\":0," ++
    "\"DiskReadOps\":0,\"DiskWriteOps\":0,\"DiskIOPS\":0,\"NetMBps\":0," ++
    "\"ConcurrentUsers\":0,\"NetSentExternal\":0,\"NetRecvExternal\":0," ++
    "\"NetSentInternal\":0,\"NetRecvInternal\":0\x7d\x7d").toUTF8.data.toList
  sha256 _ := [44, 127, 63, 40, 233, 221, 79, 79, 64, 217, 212, 151, 63, 182, 166, 222, 200, 52, 166,
    95, 56, 161, 164, 249, 164, 71, 214, 67, 68, 219, 224, 11]

/-- `NormalizeIngest` admits it, SQLite stores it, and Postgres refuses its insert. -/
theorem acceptIngest_nul :
    (normalizeIngest ⟨ingestSchema, [nulEvent]⟩ "tenant-a" "agent-a" sampleMetric.timestamp).isOk = true ∧
    (Backend.sqlite.acceptIngest nulCodec "tenant-a" "agent-a" ⟨ingestSchema, [nulEvent]⟩
      defaultIngestPolicy sampleMetric.timestamp .empty).2 = .ok [⟨"event-1", .accepted⟩] ∧
    Backend.postgres.acceptIngest nulCodec "tenant-a" "agent-a" ⟨ingestSchema, [nulEvent]⟩
      defaultIngestPolicy sampleMetric.timestamp .empty = (.empty, .error .insertFailed) := by
  decide +kernel

end WMonitor
