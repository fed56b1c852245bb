import WMonitor.Run
import WMonitor.Sql
import WMonitor.Store

/-!
# The statements of the two backends

`storage/ingest.go`, `storage/db.go`, `storage/postgres.go` and `storage/bounded_reads.go` down to the
columns: `AcceptIngest` with the columns and the arguments of its inserts, and `QueryMetricsQ` and
`QueryProcessesQ` with the columns they select and the variables each backend scans them into. What a
table holds is what `HubDB` says; here a statement may also be refused, as Postgres refuses a text with a
NUL. The statements on the budgets have no text that the receipt of the same event does not have.
-/

namespace WMonitor

inductive BackendError where
  | ingest (err : IngestError)
  | store (err : StoreError)
  /-- The database refuses an argument of a statement. -/
  | statement
  /-- `ingest: insert failed`, with the database's error. -/
  | insertFailed
  | scan
  deriving DecidableEq

/-! ## The table of metrics -/

inductive MetricColumn where
  | id
  | timestamp
  | tenantID
  | serverID
  | hostname
  | cpuPct
  | memPct
  | diskFreeGB
  | netSentBytes
  | netRecvBytes
  | cpuCores
  | memTotalGB
  | diskTotalGB
  | diskReadOps
  | diskWriteOps
  | diskIOPS
  | netMBps
  | concurrentUsers
  | netSentExternal
  | netRecvExternal
  | netSentInternal
  | netRecvInternal
  deriving DecidableEq

/-- `CREATE TABLE metrics` of Postgres. -/
def MetricColumn.type : MetricColumn → ColumnType
  | id => .int
  | timestamp => .bigint
  | tenantID => .text
  | serverID => .text
  | hostname => .text
  | cpuPct => .double
  | memPct => .double
  | diskFreeGB => .double
  | netSentBytes => .bigint
  | netRecvBytes => .bigint
  | cpuCores => .int
  | memTotalGB => .double
  | diskTotalGB => .double
  | diskReadOps => .bigint
  | diskWriteOps => .bigint
  | diskIOPS => .double
  | netMBps => .double
  | concurrentUsers => .int
  | netSentExternal => .bigint
  | netRecvExternal => .bigint
  | netSentInternal => .bigint
  | netRecvInternal => .bigint

/-- `INSERT INTO metrics(…)`. -/
def metricInsert : List MetricColumn :=
  [.timestamp, .tenantID, .serverID, .hostname, .cpuPct, .memPct, .diskFreeGB, .netSentBytes,
    .netRecvBytes, .cpuCores, .memTotalGB, .diskTotalGB, .diskReadOps, .diskWriteOps, .diskIOPS, .netMBps,
    .concurrentUsers, .netSentExternal, .netRecvExternal, .netSentInternal, .netRecvInternal]

/-- Its arguments. -/
def metricArgs (tenant agent : String) (m : MetricRow) : List SqlValue :=
  [.int (unix m.timestamp), .text tenant, .text agent, .text m.hostname, .float m.cpuPct,
    .float m.memPct, .float m.diskFreeGB, .int (toInt64 m.netSentBytes), .int (toInt64 m.netRecvBytes),
    .int m.cpuCores, .float m.memTotalGB, .float m.diskTotalGB, .int (toInt64 m.diskReadOps),
    .int (toInt64 m.diskWriteOps), .float m.diskIOPS, .float m.netMBps, .int m.concurrentUsers,
    .int (toInt64 m.netSentExternal), .int (toInt64 m.netRecvExternal),
    .int (toInt64 m.netSentInternal), .int (toInt64 m.netRecvInternal)]

/-- A row by its columns. -/
def MetricRecord.ofColumns (row : MetricColumn → Option SqlValue) : Option MetricRecord := do
  return {
    timestamp := ← (row .timestamp).bind (·.toInt)
    tenantID := ← (row .tenantID).bind (·.toText)
    serverID := ← (row .serverID).bind (·.toText)
    hostname := ← (row .hostname).bind (·.toText)
    cpuPct := ← (row .cpuPct).bind (·.toFloat)
    memPct := ← (row .memPct).bind (·.toFloat)
    diskFreeGB := ← (row .diskFreeGB).bind (·.toFloat)
    netSentBytes := ← (row .netSentBytes).bind (·.toInt)
    netRecvBytes := ← (row .netRecvBytes).bind (·.toInt)
    cpuCores := ← (row .cpuCores).bind (·.toInt)
    memTotalGB := ← (row .memTotalGB).bind (·.toFloat)
    diskTotalGB := ← (row .diskTotalGB).bind (·.toFloat)
    diskReadOps := ← (row .diskReadOps).bind (·.toInt)
    diskWriteOps := ← (row .diskWriteOps).bind (·.toInt)
    diskIOPS := ← (row .diskIOPS).bind (·.toFloat)
    netMBps := ← (row .netMBps).bind (·.toFloat)
    concurrentUsers := ← (row .concurrentUsers).bind (·.toInt)
    netSentExternal := ← (row .netSentExternal).bind (·.toInt)
    netRecvExternal := ← (row .netRecvExternal).bind (·.toInt)
    netSentInternal := ← (row .netSentInternal).bind (·.toInt)
    netRecvInternal := ← (row .netRecvInternal).bind (·.toInt) }

def MetricRecord.column (r : Stored MetricRecord) : MetricColumn → SqlValue
  | .id => .int r.id
  | .timestamp => .int r.row.timestamp
  | .tenantID => .text r.row.tenantID
  | .serverID => .text r.row.serverID
  | .hostname => .text r.row.hostname
  | .cpuPct => .float r.row.cpuPct
  | .memPct => .float r.row.memPct
  | .diskFreeGB => .float r.row.diskFreeGB
  | .netSentBytes => .int r.row.netSentBytes
  | .netRecvBytes => .int r.row.netRecvBytes
  | .cpuCores => .int r.row.cpuCores
  | .memTotalGB => .float r.row.memTotalGB
  | .diskTotalGB => .float r.row.diskTotalGB
  | .diskReadOps => .int r.row.diskReadOps
  | .diskWriteOps => .int r.row.diskWriteOps
  | .diskIOPS => .float r.row.diskIOPS
  | .netMBps => .float r.row.netMBps
  | .concurrentUsers => .int r.row.concurrentUsers
  | .netSentExternal => .int r.row.netSentExternal
  | .netRecvExternal => .int r.row.netRecvExternal
  | .netSentInternal => .int r.row.netSentInternal
  | .netRecvInternal => .int r.row.netRecvInternal

/-- `SELECT … FROM metrics`, the same in both backends. -/
def metricSelect : List MetricColumn :=
  [.id, .timestamp, .tenantID, .serverID, .hostname, .cpuPct, .memPct, .diskFreeGB, .netSentBytes,
    .netRecvBytes, .cpuCores, .memTotalGB, .diskTotalGB, .diskReadOps, .diskWriteOps, .diskIOPS, .netMBps,
    .concurrentUsers, .netSentExternal, .netRecvExternal, .netSentInternal, .netRecvInternal]

/-- `rows.Scan` of SQLite, into the row itself but for the timestamp. -/
def scanMetricSqlite : Scan MetricRow := do
  let id ← scanInt64
  let ts ← scanInt64
  let tenantID ← scanString
  let serverID ← scanString
  let hostname ← scanString
  let cpuPct ← scanFloat64
  let memPct ← scanFloat64
  let diskFreeGB ← scanFloat64
  let netSentBytes ← scanUint64
  let netRecvBytes ← scanUint64
  let cpuCores ← scanInt64
  let memTotalGB ← scanFloat64
  let diskTotalGB ← scanFloat64
  let diskReadOps ← scanUint64
  let diskWriteOps ← scanUint64
  let diskIOPS ← scanFloat64
  let netMBps ← scanFloat64
  let concurrentUsers ← scanInt64
  let netSentExternal ← scanUint64
  let netRecvExternal ← scanUint64
  let netSentInternal ← scanUint64
  let netRecvInternal ← scanUint64
  return { id, timestamp := ts * second, tenantID, serverID, hostname, cpuPct, memPct, diskFreeGB,
           netSentBytes, netRecvBytes, cpuCores, memTotalGB, diskTotalGB, diskReadOps, diskWriteOps,
           diskIOPS, netMBps, concurrentUsers, netSentExternal, netRecvExternal, netSentInternal,
           netRecvInternal }

/-- `rows.Scan` of Postgres, the counters into signed variables that are converted afterwards. -/
def scanMetricPostgres : Scan MetricRow := do
  let id ← scanInt64
  let ts ← scanInt64
  let tenantID ← scanString
  let serverID ← scanString
  let hostname ← scanString
  let cpuPct ← scanFloat64
  let memPct ← scanFloat64
  let diskFreeGB ← scanFloat64
  let netSent ← scanInt64
  let netRecv ← scanInt64
  let cpuCores ← scanInt64
  let memTotalGB ← scanFloat64
  let diskTotalGB ← scanFloat64
  let diskRead ← scanInt64
  let diskWrite ← scanInt64
  let diskIOPS ← scanFloat64
  let netMBps ← scanFloat64
  let concurrentUsers ← scanInt64
  let netSentExt ← scanInt64
  let netRecvExt ← scanInt64
  let netSentInt ← scanInt64
  let netRecvInt ← scanInt64
  return { id, timestamp := ts * second, tenantID, serverID, hostname, cpuPct, memPct, diskFreeGB,
           netSentBytes := toUint64 netSent, netRecvBytes := toUint64 netRecv, cpuCores, memTotalGB,
           diskTotalGB, diskReadOps := toUint64 diskRead, diskWriteOps := toUint64 diskWrite, diskIOPS,
           netMBps, concurrentUsers, netSentExternal := toUint64 netSentExt,
           netRecvExternal := toUint64 netRecvExt, netSentInternal := toUint64 netSentInt,
           netRecvInternal := toUint64 netRecvInt }

def Backend.scanMetric (b : Backend) (r : Stored MetricRecord) : Option MetricRow :=
  (match b with
    | sqlite => scanMetricSqlite
    | postgres => scanMetricPostgres).all (metricSelect.map (MetricRecord.column r))

/-! ## The table of processes -/

inductive ProcessColumn where
  | id
  | timestamp
  | tenantID
  | serverID
  | hostname
  | pid
  | name
  | cpuPct
  | memMB
  deriving DecidableEq

/-- `CREATE TABLE processes` of Postgres. -/
def ProcessColumn.type : ProcessColumn → ColumnType
  | id => .int
  | timestamp => .bigint
  | tenantID => .text
  | serverID => .text
  | hostname => .text
  | pid => .int
  | name => .text
  | cpuPct => .double
  | memMB => .double

/-- `INSERT INTO processes(…)`. -/
def processInsert : List ProcessColumn :=
  [.timestamp, .tenantID, .serverID, .hostname, .pid, .name, .cpuPct, .memMB]

/-- Its arguments. -/
def processArgs (tenant agent : String) (p : ProcessRow) : List SqlValue :=
  [.int (unix p.timestamp), .text tenant, .text agent, .text p.hostname, .int p.pid, .text p.name,
    .float p.cpuPct, .float p.memMB]

def ProcessRecord.ofColumns (row : ProcessColumn → Option SqlValue) : Option ProcessRecord := do
  return {
    timestamp := ← (row .timestamp).bind (·.toInt)
    tenantID := ← (row .tenantID).bind (·.toText)
    serverID := ← (row .serverID).bind (·.toText)
    hostname := ← (row .hostname).bind (·.toText)
    pid := ← (row .pid).bind (·.toInt)
    name := ← (row .name).bind (·.toText)
    cpuPct := ← (row .cpuPct).bind (·.toFloat)
    memMB := ← (row .memMB).bind (·.toFloat) }

def ProcessRecord.column (r : Stored ProcessRecord) : ProcessColumn → SqlValue
  | .id => .int r.id
  | .timestamp => .int r.row.timestamp
  | .tenantID => .text r.row.tenantID
  | .serverID => .text r.row.serverID
  | .hostname => .text r.row.hostname
  | .pid => .int r.row.pid
  | .name => .text r.row.name
  | .cpuPct => .float r.row.cpuPct
  | .memMB => .float r.row.memMB

/-- `SELECT … FROM processes`. -/
def processSelect : List ProcessColumn :=
  [.id, .timestamp, .tenantID, .serverID, .hostname, .pid, .name, .cpuPct, .memMB]

/-- `rows.Scan` of both backends. -/
def scanProcessRow : Scan ProcessRow := do
  let id ← scanInt64
  let ts ← scanInt64
  let tenantID ← scanString
  let serverID ← scanString
  let hostname ← scanString
  let pid ← scanInt32
  let name ← scanString
  let cpuPct ← scanFloat64
  let memMB ← scanFloat64
  return { id, timestamp := ts * second, tenantID, serverID, hostname, pid, name, cpuPct, memMB }

def Backend.scanProcess (_ : Backend) (r : Stored ProcessRecord) : Option ProcessRow :=
  scanProcessRow.all (processSelect.map (ProcessRecord.column r))

/-! ## AcceptIngest -/

variable (K : EventCodec)

namespace Backend

variable (b : Backend)

/-- The arguments of the receipt's insert, with the types of their columns. -/
def receiptArgs (r : Receipt) : List (ColumnType × SqlValue) :=
  [(.text, .text r.tenantID), (.text, .text r.agentID), (.text, .text r.eventID),
    (.text, .text r.bootID), (.bigint, .int r.sequence), (.text, .text r.contentHash),
    (.bigint, .int r.receivedAt), (.bigint, .int r.acceptedBytes)]

/-- The insert of the event's row. -/
def insertRow (tenant agent : String) (event : IngestEvent) (tx : HubDB) :
    HubDB × Except BackendError Unit :=
  match event.metric, event.process with
  | some m, _ =>
    match (b.insertValues MetricColumn.type metricInsert (metricArgs tenant agent m)).bind
      MetricRecord.ofColumns with
    | some r =>
      if b.idLeft tx.lastMetricID then (tx.insertMetric r, .ok ()) else (tx, .error .insertFailed)
    | none => (tx, .error .insertFailed)
  | none, some p =>
    match (b.insertValues ProcessColumn.type processInsert (processArgs tenant agent p)).bind
      ProcessRecord.ofColumns with
    | some r =>
      if b.idLeft tx.lastProcessID then (tx.insertProcess r, .ok ()) else (tx, .error .insertFailed)
    | none => (tx, .error .insertFailed)
  | none, none => (tx, .error (.ingest .nilProcess))

/-- One turn of the loop of `acceptIngest`. -/
def acceptEvent (tenant agent : String) (policy : IngestPolicy) (now : ℤ) (event : IngestEvent)
    (tx : HubDB) : HubDB × Except BackendError IngestOutcome :=
  match K.marshal event with
  | .error text => (tx, .error (.ingest (.marshal text)))
  | .ok body =>
    let receipt := receiptOf K tenant agent now event body
    if !(receiptArgs receipt).all fun x => b.holds x.1 x.2 then (tx, .error .statement)
    else match tx.insertReceipt receipt with
      | none =>
        if tx.selectContentHash tenant agent event.eventID = some (K.contentHash body) then
          (tx, .ok ⟨event.eventID, .duplicate⟩)
        else (tx, .error (.ingest .eventConflict))
      | some tx =>
        match chargeBudgets tenant agent policy now body.length tx with
        | .error err => (tx, .error (.ingest err))
        | .ok tx =>
          match b.insertRow tenant agent event tx with
          | (tx, .error err) => (tx, .error err)
          | (tx, .ok ()) => (tx, .ok ⟨event.eventID, .accepted⟩)

/-- The loop of `acceptIngest`. -/
def acceptEvents (tenant agent : String) (policy : IngestPolicy) (now : ℤ) :
    List IngestEvent → HubDB → HubDB × Except BackendError (List IngestOutcome)
  | [], tx => (tx, .ok [])
  | e :: es, tx =>
    match b.acceptEvent K tenant agent policy now e tx with
    | (tx, .error err) => (tx, .error err)
    | (tx, .ok o) =>
      match acceptEvents tenant agent policy now es tx with
      | (tx, .error err) => (tx, .error err)
      | (tx, .ok os) => (tx, .ok (o :: os))

/-- Postgres does not take back the ids that a sequence gave out. -/
def rollback (db tx : HubDB) : HubDB :=
  match b with
  | sqlite => db
  | postgres => { db with lastMetricID := tx.lastMetricID, lastProcessID := tx.lastProcessID }

/-- `AcceptIngest` at the Hub's time `now`. -/
def acceptIngest (tenant agent : String) (batch : IngestBatch) (policy : IngestPolicy) (now : ℤ)
    (db : HubDB) : HubDB × Except BackendError (List IngestOutcome) :=
  match normalizeIngest batch tenant agent now with
  | .error err => (db, .error (.ingest err))
  | .ok batch =>
    match policy.validate with
    | .error err => (db, .error (.ingest err))
    | .ok () =>
      match b.acceptEvents K tenant agent policy now batch.events db with
      | (tx, .error err) => (b.rollback db tx, .error err)
      | (tx, .ok os) => (tx, .ok os)

/-- One call on the Hub's ingestion tables. -/
def step (db : HubDB) : IngestCall → HubDB
  | .accept tenant agent batch policy now => (b.acceptIngest K tenant agent batch policy now db).1
  | .cleanup now second => cleanupIngest now second db

def run (calls : List IngestCall) (db : HubDB) : HubDB := Run.run (b.step K) db calls

/-! ## Reads -/

/-- A read of a tenant's rows: the texts of the query are arguments of the statement. -/
def read {α ρ : Type} (C : Columns α) (scan : Stored α → Option ρ) (q : MetricQuery)
    (t : List (Stored α)) : Except BackendError (List ρ) :=
  if !requireTenant q.tenantID then .error (.store .tenantRequired)
  else if !(b.holds .text (.text q.tenantID) && b.holds .text (.text q.serverID)) then
    .error .statement
  else match (C.select q false t).mapM scan with
    | some rows => .ok rows
    | none => .error .scan

def queryMetricsQ (q : MetricQuery) (db : HubDB) : Except BackendError (List MetricRow) :=
  b.read metricColumns b.scanMetric q db.metrics

def queryProcessesQ (q : MetricQuery) (db : HubDB) : Except BackendError (List ProcessRow) :=
  b.read processColumns b.scanProcess q db.processes

end Backend

end WMonitor
