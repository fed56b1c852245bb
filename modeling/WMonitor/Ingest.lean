import WMonitor.Table
import WMonitor.Text

/-!
# The Hub's ingestion

`storage/ingest_contract.go` and `storage/ingest.go`: what a batch must satisfy
(`normalizeIngest`), the transaction that accepts it (`acceptIngest`) and the cleanup of its
receipts (`cleanupIngest`). SQLite and Postgres run the same statements, so one model serves both.

A time is its instant in nanoseconds since the Unix epoch; a date in UTC is its day number. The
JSON text of an event and its SHA-256 are parameters, `EventCodec`.
-/

namespace WMonitor

def second : ℤ := 1000000000
def minute : ℤ := 60 * second
def hour : ℤ := 60 * minute

/-- `time.Time{}`, the first instant of year 1. -/
def zeroTime : ℤ := -62135596800 * second

/-- `Time.Unix`. -/
def unix (t : ℤ) : ℤ := t / second

/-- `Time.Format("2006-01-02")` in UTC. -/
def utcDay (t : ℤ) : ℤ := t / (24 * hour)

def ingestSchema : String := "zeus.ingest.v1"
def maxBatchEvents : ℕ := 64
def maxBatchBytes : ℕ := 256 * 1024
def maxEventAge : ℤ := 30 * 24 * hour
def maxInt64 : ℕ := 9223372036854775807

structure MetricRow where
  id : ℤ
  timestamp : ℤ
  tenantID : String
  serverID : String
  hostname : String
  cpuPct : F64
  memPct : F64
  diskFreeGB : F64
  netSentBytes : ℕ
  netRecvBytes : ℕ
  cpuCores : ℤ
  memTotalGB : F64
  diskTotalGB : F64
  diskReadOps : ℕ
  diskWriteOps : ℕ
  diskIOPS : F64
  netMBps : F64
  concurrentUsers : ℤ
  netSentExternal : ℕ
  netRecvExternal : ℕ
  netSentInternal : ℕ
  netRecvInternal : ℕ
  deriving DecidableEq

structure ProcessRow where
  id : ℤ
  timestamp : ℤ
  tenantID : String
  serverID : String
  hostname : String
  pid : ℤ
  name : String
  cpuPct : F64
  memMB : F64
  deriving DecidableEq

structure IngestEvent where
  eventID : String
  bootID : String
  sequence : ℕ
  metric : Option MetricRow
  process : Option ProcessRow
  deriving DecidableEq

structure IngestBatch where
  schemaVersion : String
  events : List IngestEvent
  deriving DecidableEq

inductive OutcomeStatus where
  | accepted
  | duplicate
  deriving DecidableEq

structure IngestOutcome where
  eventID : String
  status : OutcomeStatus
  deriving DecidableEq

structure IngestPolicy where
  dailyRows : ℤ
  dailyBytes : ℤ
  agentDailyRows : ℤ
  agentDailyBytes : ℤ
  deriving DecidableEq

inductive IngestError where
  | invalid (text : String)
  | eventConflict
  | acceptedBudget
  | marshal (text : String)
  | nilProcess
  deriving DecidableEq

def defaultIngestPolicy : IngestPolicy :=
  ⟨20000000, 20 * 1024 ^ 3, 250000, 256 * 1024 ^ 2⟩

def IngestPolicy.validate (p : IngestPolicy) : Except IngestError Unit :=
  if p.dailyRows < 1 ∨ p.dailyBytes < maxBatchBytes ∨ p.agentDailyRows < 1
      ∨ p.agentDailyBytes < maxBatchBytes ∨ p.agentDailyRows > p.dailyRows
      ∨ p.agentDailyBytes > p.dailyBytes then
    .error (.invalid "ingest: invalid tenant/agent budget configuration")
  else .ok ()

/-! ## The contract -/

def identifierChar (c : Char) : Bool :=
  ('a' ≤ c && c ≤ 'z') || ('A' ≤ c && c ≤ 'Z') || ('0' ≤ c && c ≤ '9')
    || c = '_' || c = '.' || c = ':' || c = '-'

/-- The regular expression `^[a-zA-Z0-9_.:-]{1,128}$`. -/
def eventIdentifier (s : String) : Bool :=
  1 ≤ s.toList.length && s.toList.length ≤ 128 && s.toList.all identifierChar

/-- `RequireTenant` accepts. -/
def requireTenant (id : String) : Bool :=
  trimSpace id.toList ≠ []

def validMeasurement (values : List F64) : Bool :=
  values.all fun v => !(v.isNaN || v.isInf || v.lt (.fin 0) || (F64.fin (10 ^ 15)).lt v)

/-- The values `NormalizeIngest` admits in a metric for `tenant` and `agent`. -/
def MetricRow.admitted (m : MetricRow) (tenant agent : String) : Bool :=
  !(m.id ≠ 0 || (m.tenantID ≠ "" && m.tenantID ≠ tenant)
    || (m.serverID ≠ "" && m.serverID ≠ agent) || len m.hostname > 256
    || !validMeasurement [m.cpuPct, m.memPct, m.diskFreeGB, m.memTotalGB, m.diskTotalGB,
      m.diskIOPS, m.netMBps]
    || (F64.fin 100).lt m.cpuPct || (F64.fin 100).lt m.memPct
    || m.cpuCores < 0 || m.cpuCores > 1000000
    || m.concurrentUsers < 0 || m.concurrentUsers > 1000000000)

def MetricRow.counters (m : MetricRow) : List ℕ :=
  [m.netSentBytes, m.netRecvBytes, m.diskReadOps, m.diskWriteOps, m.netSentExternal,
    m.netRecvExternal, m.netSentInternal, m.netRecvInternal]

/-- The values `NormalizeIngest` admits in a process for `tenant` and `agent`. -/
def ProcessRow.admitted (p : ProcessRow) (tenant agent : String) : Bool :=
  !(p.id ≠ 0 || (p.tenantID ≠ "" && p.tenantID ≠ tenant)
    || (p.serverID ≠ "" && p.serverID ≠ agent) || len p.hostname > 256
    || p.name = "" || len p.name > 512 || p.pid < 0 || !validMeasurement [p.cpuPct, p.memMB])

def IngestEvent.identified (e : IngestEvent) (seen : List String) : Bool :=
  !(!eventIdentifier e.eventID || !eventIdentifier e.bootID || e.sequence = 0
    || e.sequence > maxInt64 || seen.contains e.eventID
    || e.metric.isNone == e.process.isNone)

/-- The event's row with its ownership filled in, and its timestamp. -/
def normalizeRow (tenant agent : String) (e : IngestEvent) :
    Except IngestError (IngestEvent × ℤ) :=
  match e.metric, e.process with
  | some m, _ =>
    if !m.admitted tenant agent then
      .error (.invalid "ingest: invalid metric identity or values")
    else if m.counters.any (· > maxInt64) then
      .error (.invalid "ingest: counter exceeds signed storage range")
    else .ok ({ e with metric := some { m with tenantID := tenant, serverID := agent } },
      m.timestamp)
  | none, some p =>
    if !p.admitted tenant agent then
      .error (.invalid "ingest: invalid process identity or values")
    else .ok ({ e with process := some { p with tenantID := tenant, serverID := agent } },
      p.timestamp)
  | none, none => .error .nilProcess

/-- `timestamp` is in the delivery window at `now`. -/
def inWindow (now timestamp : ℤ) : Bool :=
  !(timestamp = zeroTime || timestamp > now + minute || timestamp < now - maxEventAge)

def normalizeEvent (tenant agent : String) (now : ℤ) (seen : List String) (e : IngestEvent) :
    Except IngestError IngestEvent :=
  if !e.identified seen then .error (.invalid "ingest: invalid or repeated event identity")
  else match normalizeRow tenant agent e with
    | .error err => .error err
    | .ok (e', timestamp) =>
      if inWindow now timestamp then .ok e'
      else .error (.invalid
        "ingest: timestamp outside the supported 30-day delivery window")

/-- The loop over the batch, `seen` the event ids before. -/
def normalizeEvents (tenant agent : String) (now : ℤ) :
    List String → List IngestEvent → Except IngestError (List IngestEvent)
  | _, [] => .ok []
  | seen, e :: es => do
    let e' ← normalizeEvent tenant agent now seen e
    let es' ← normalizeEvents tenant agent now (e.eventID :: seen) es
    return e' :: es'

def normalizeIngest (batch : IngestBatch) (tenant agent : String) (now : ℤ) :
    Except IngestError IngestBatch :=
  if !requireTenant tenant ∨ agent = "" ∨ len agent > 256 ∨ batch.schemaVersion ≠ ingestSchema
      ∨ batch.events.length = 0 ∨ batch.events.length > maxBatchEvents then
    .error (.invalid "ingest: invalid scope, schema or batch cardinality")
  else match normalizeEvents tenant agent now [] batch.events with
    | .error err => .error err
    | .ok es => .ok { batch with events := es }

/-! ## The tables -/

structure Receipt where
  tenantID : String
  agentID : String
  eventID : String
  bootID : String
  sequence : ℤ
  contentHash : String
  receivedAt : ℤ
  acceptedBytes : ℕ
  deriving DecidableEq

def Receipt.key (r : Receipt) : String × String × String := (r.tenantID, r.agentID, r.eventID)

/-- The primary key and the unique index of `ingest_receipts`. -/
def Receipt.clash (r r' : Receipt) : Bool :=
  r.key = r'.key || (r.tenantID = r'.tenantID && r.agentID = r'.agentID
    && r.bootID = r'.bootID && r.sequence = r'.sequence)

structure Budget where
  tenantID : String
  actorID : String
  day : ℤ
  acceptedRows : ℤ
  acceptedBytes : ℤ
  deriving DecidableEq

def Budget.key (b : Budget) : String × String × ℤ := (b.tenantID, b.actorID, b.day)

/-- One more accepted event of `size` bytes. -/
def Budget.add (size : ℕ) (b : Budget) : Budget :=
  { b with acceptedRows := b.acceptedRows + 1, acceptedBytes := b.acceptedBytes + size }

/-- `int64(n)` of an unsigned 64-bit value. -/
def toInt64 (n : ℕ) : ℤ :=
  if n % 2 ^ 64 ≤ maxInt64 then (n % 2 ^ 64 : ℕ) else (n % 2 ^ 64 : ℕ) - 2 ^ 64

/-- A row of `metrics` without its id. -/
structure MetricRecord where
  timestamp : ℤ
  tenantID : String
  serverID : String
  hostname : String
  cpuPct : F64
  memPct : F64
  diskFreeGB : F64
  netSentBytes : ℤ
  netRecvBytes : ℤ
  cpuCores : ℤ
  memTotalGB : F64
  diskTotalGB : F64
  diskReadOps : ℤ
  diskWriteOps : ℤ
  diskIOPS : F64
  netMBps : F64
  concurrentUsers : ℤ
  netSentExternal : ℤ
  netRecvExternal : ℤ
  netSentInternal : ℤ
  netRecvInternal : ℤ
  deriving DecidableEq

/-- A row of `processes` without its id. -/
structure ProcessRecord where
  timestamp : ℤ
  tenantID : String
  serverID : String
  hostname : String
  pid : ℤ
  name : String
  cpuPct : F64
  memMB : F64
  deriving DecidableEq

/-- A row of a table with an autoincremented id. -/
structure Stored (α : Type) where
  id : ℕ
  row : α
  deriving DecidableEq

/-- The Hub's ingestion tables, with the last ids the data tables gave out. -/
structure HubDB where
  receipts : List Receipt
  budgets : List Budget
  metrics : List (Stored MetricRecord)
  processes : List (Stored ProcessRecord)
  lastMetricID : ℕ
  lastProcessID : ℕ
  deriving DecidableEq

def HubDB.empty : HubDB := ⟨[], [], [], [], 0, 0⟩

def metricRecord (tenant agent : String) (m : MetricRow) : MetricRecord where
  timestamp := unix m.timestamp
  tenantID := tenant
  serverID := agent
  hostname := m.hostname
  cpuPct := m.cpuPct
  memPct := m.memPct
  diskFreeGB := m.diskFreeGB
  netSentBytes := toInt64 m.netSentBytes
  netRecvBytes := toInt64 m.netRecvBytes
  cpuCores := m.cpuCores
  memTotalGB := m.memTotalGB
  diskTotalGB := m.diskTotalGB
  diskReadOps := toInt64 m.diskReadOps
  diskWriteOps := toInt64 m.diskWriteOps
  diskIOPS := m.diskIOPS
  netMBps := m.netMBps
  concurrentUsers := m.concurrentUsers
  netSentExternal := toInt64 m.netSentExternal
  netRecvExternal := toInt64 m.netRecvExternal
  netSentInternal := toInt64 m.netSentInternal
  netRecvInternal := toInt64 m.netRecvInternal

def processRecord (tenant agent : String) (p : ProcessRow) : ProcessRecord where
  timestamp := unix p.timestamp
  tenantID := tenant
  serverID := agent
  hostname := p.hostname
  pid := p.pid
  name := p.name
  cpuPct := p.cpuPct
  memMB := p.memMB

namespace HubDB

/-- `INSERT INTO ingest_receipts ... ON CONFLICT DO NOTHING`, `none` when no row was inserted. -/
def insertReceipt (r : Receipt) (db : HubDB) : Option HubDB :=
  (Table.insert Receipt.clash r db.receipts).map fun rs => { db with receipts := rs }

/-- `SELECT content_hash FROM ingest_receipts` by its primary key. -/
def selectContentHash (tenant agent eventID : String) (db : HubDB) : Option String :=
  (Table.lookup Receipt.key (tenant, agent, eventID) db.receipts).map (·.contentHash)

/-- `INSERT INTO ingest_budgets(tenant_id,actor_id,day) ... ON CONFLICT DO NOTHING`. -/
def ensureBudget (tenant actor : String) (day : ℤ) (db : HubDB) : HubDB :=
  match Table.insert (fun b b' : Budget => b.key = b'.key) ⟨tenant, actor, day, 0, 0⟩
    db.budgets with
  | some bs => { db with budgets := bs }
  | none => db

/-- The budget row has room for one more event of `size` bytes. -/
def fits (tenant actor : String) (day rows bytes : ℤ) (size : ℕ) (b : Budget) : Bool :=
  b.tenantID = tenant && b.actorID = actor && b.day = day && b.acceptedRows < rows
    && b.acceptedBytes ≤ bytes - size

/-- The budget row's insert and conditional update; `none` unless it changed one row. -/
def chargeBudget (tenant actor : String) (day rows bytes : ℤ) (size : ℕ) (db : HubDB) :
    Option HubDB :=
  let db := db.ensureBudget tenant actor day
  let room := fits tenant actor day rows bytes size
  if db.budgets.countP room ≠ 1 then none
  else some { db with budgets := Table.update room (·.add size) db.budgets }

def insertMetric (r : MetricRecord) (db : HubDB) : HubDB :=
  { db with metrics := db.metrics ++ [⟨db.lastMetricID + 1, r⟩],
            lastMetricID := db.lastMetricID + 1 }

def insertProcess (r : ProcessRecord) (db : HubDB) : HubDB :=
  { db with processes := db.processes ++ [⟨db.lastProcessID + 1, r⟩],
            lastProcessID := db.lastProcessID + 1 }

end HubDB

/-! ## The transaction -/

/-- `json.Marshal` of an event and `sha256.Sum256`. -/
structure EventCodec where
  marshal : IngestEvent → Except String (List UInt8)
  sha256 : List UInt8 → List UInt8

def EventCodec.contentHash (K : EventCodec) (body : List UInt8) : String :=
  hexEncode (K.sha256 body)

variable (K : EventCodec)

/-- The insert of the event's row. -/
def insertRow (tenant agent : String) (event : IngestEvent) (tx : HubDB) :
    Except IngestError HubDB :=
  match event.metric, event.process with
  | some m, _ => .ok (tx.insertMetric (metricRecord tenant agent m))
  | none, some p => .ok (tx.insertProcess (processRecord tenant agent p))
  | none, none => .error .nilProcess

/-- Both budgets of the transaction, the tenant's under the empty actor. -/
def chargeBudgets (tenant agent : String) (policy : IngestPolicy) (now : ℤ) (size : ℕ)
    (tx : HubDB) : Except IngestError HubDB :=
  match tx.chargeBudget tenant "" (utcDay now) policy.dailyRows policy.dailyBytes size with
  | none => .error .acceptedBudget
  | some tx =>
    match tx.chargeBudget tenant agent (utcDay now) policy.agentDailyRows
      policy.agentDailyBytes size with
    | none => .error .acceptedBudget
    | some tx => .ok tx

def receiptOf (tenant agent : String) (now : ℤ) (event : IngestEvent) (body : List UInt8) :
    Receipt :=
  ⟨tenant, agent, event.eventID, event.bootID, toInt64 event.sequence, K.contentHash body,
    unix now, body.length⟩

/-- One turn of the loop of `acceptIngest`. -/
def acceptEvent (tenant agent : String) (policy : IngestPolicy) (now : ℤ)
    (event : IngestEvent) (tx : HubDB) : Except IngestError (HubDB × IngestOutcome) :=
  match K.marshal event with
  | .error text => .error (.marshal text)
  | .ok body =>
    match tx.insertReceipt (receiptOf K tenant agent now event body) with
    | none =>
      if tx.selectContentHash tenant agent event.eventID = some (K.contentHash body) then
        .ok (tx, ⟨event.eventID, .duplicate⟩)
      else .error .eventConflict
    | some tx =>
      match chargeBudgets tenant agent policy now body.length tx with
      | .error err => .error err
      | .ok tx =>
        match insertRow tenant agent event tx with
        | .error err => .error err
        | .ok tx => .ok (tx, ⟨event.eventID, .accepted⟩)

/-- The loop of `acceptIngest`. -/
def acceptEvents (tenant agent : String) (policy : IngestPolicy) (now : ℤ) :
    List IngestEvent → HubDB → Except IngestError (HubDB × List IngestOutcome)
  | [], tx => .ok (tx, [])
  | e :: es, tx =>
    match acceptEvent K tenant agent policy now e tx with
    | .error err => .error err
    | .ok (tx, o) =>
      match acceptEvents tenant agent policy now es tx with
      | .error err => .error err
      | .ok (tx, os) => .ok (tx, o :: os)

/-- The transaction, committed at its end and rolled back on an error. -/
def acceptIngest (tenant agent : String) (batch : IngestBatch) (policy : IngestPolicy)
    (now : ℤ) (db : HubDB) : HubDB × Except IngestError (List IngestOutcome) :=
  Table.transact (acceptEvents K tenant agent policy now batch.events) db

/-- `AcceptIngest` at the Hub's time `now`. -/
def HubDB.acceptIngest (tenant agent : String) (batch : IngestBatch) (policy : IngestPolicy)
    (now : ℤ) (db : HubDB) : HubDB × Except IngestError (List IngestOutcome) :=
  match normalizeIngest batch tenant agent now with
  | .error err => (db, .error err)
  | .ok batch =>
    match policy.validate with
    | .error err => (db, .error err)
    | .ok () => WMonitor.acceptIngest K tenant agent batch policy now db

def cleanupCutoff (now : ℤ) : ℤ := now - maxEventAge - 48 * hour

/-- `CleanupIngest`: two statements, of which the second may not run. -/
def cleanupIngest (now : ℤ) (second : Bool) (db : HubDB) : HubDB :=
  let cutoff := cleanupCutoff now
  let db := { db with receipts := Table.delete (·.receivedAt < unix cutoff) db.receipts }
  if second then { db with budgets := Table.delete (·.day < utcDay cutoff) db.budgets } else db

/-! ## Runs -/

/-- One call on the Hub's ingestion tables. -/
inductive IngestCall where
  | accept (tenant agent : String) (batch : IngestBatch) (policy : IngestPolicy) (now : ℤ)
  | cleanup (now : ℤ) (second : Bool)

def IngestCall.time : IngestCall → ℤ
  | accept _ _ _ _ now => now
  | cleanup now _ => now

def IngestCall.step (c : IngestCall) (db : HubDB) : HubDB :=
  match c with
  | accept tenant agent batch policy now => (db.acceptIngest K tenant agent batch policy now).1
  | cleanup now second => cleanupIngest now second db

def runIngest (calls : List IngestCall) (db : HubDB) : HubDB :=
  calls.foldl (fun db c => c.step K db) db

end WMonitor
