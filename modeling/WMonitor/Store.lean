import Mathlib.Data.List.Sort
import Mathlib.Data.String.Basic
import WMonitor.Credentials

/-!
# The Hub's store

`storage/query.go`, `storage/db.go`, `storage/bounded_reads.go` and `storage/audit.go`: the reads
of the data tables, each bounded by a limit and scoped to a tenant unless it is the privileged one
of the alerting, and the audit log. SQLite and Postgres run the same statements, so one model
serves both. The order of texts is that of their code points, as in SQLite.
-/

namespace WMonitor

def localTenantID : String := "t_local"

def defaultQueryLimit : ℕ := 100000

structure MetricQuery where
  since : ℤ
  untilTime : ℤ
  tenantID : String
  serverID : String
  limit : ℤ
  afterUnix : ℤ
  afterID : ℤ
  deriving DecidableEq

inductive StoreError where
  | tenantRequired
  | audit (text : String)
  deriving DecidableEq

/-- Rows without a tenant belong to the standalone server. -/
def normalizeInsertTenant (id : String) : String := if requireTenant id then id else localTenantID

def boundedLimit (limit : ℤ) : ℕ :=
  if limit < 1 ∨ limit > defaultQueryLimit then defaultQueryLimit else limit.toNat

/-! ## Reads of the data tables -/

/-- The columns the reads select and sort by. -/
structure Columns (α : Type) where
  timestamp : α → ℤ
  tenantID : α → String
  serverID : α → String

def metricColumns : Columns MetricRecord := ⟨(·.timestamp), (·.tenantID), (·.serverID)⟩

def processColumns : Columns ProcessRecord := ⟨(·.timestamp), (·.tenantID), (·.serverID)⟩

namespace Columns

variable {α : Type} (C : Columns α)

/-- `ORDER BY timestamp ASC, id ASC`. -/
def Before (a b : Stored α) : Prop :=
  C.timestamp a.row < C.timestamp b.row ∨ (C.timestamp a.row = C.timestamp b.row ∧ a.id ≤ b.id)

instance : DecidableRel C.Before := fun _ _ =>
  inferInstanceAs (Decidable (_ < _ ∨ _ = _ ∧ _ ≤ _))

/-- The row is past the cursor of the query, if it has one. -/
def passed (q : MetricQuery) (r : Stored α) : Bool :=
  q.afterID ≤ 0 || q.afterUnix < C.timestamp r.row
    || (C.timestamp r.row = q.afterUnix && q.afterID < r.id)

/-- The `WHERE` clause of a read of the rows of a tenant, or of all. -/
def meets (q : MetricQuery) (allTenants : Bool) (r : Stored α) : Bool :=
  unix q.since ≤ C.timestamp r.row
    && (q.untilTime = zeroTime || C.timestamp r.row ≤ unix q.untilTime)
    && (allTenants || C.tenantID r.row = q.tenantID)
    && (q.serverID = "" || C.serverID r.row = q.serverID)
    && C.passed q r

/-- All rows the query selects, in its order. -/
def ordered (q : MetricQuery) (allTenants : Bool) (t : List (Stored α)) : List (Stored α) :=
  (t.filter (C.meets q allTenants)).insertionSort C.Before

def select (q : MetricQuery) (allTenants : Bool) (t : List (Stored α)) : List (Stored α) :=
  (C.ordered q allTenants t).take (boundedLimit q.limit)

end Columns

/-- The order in which a table is read, where the statement leaves rows without one. -/
structure ScanOrder (α : Type) where
  order : List (Stored α) → List (Stored α)
  perm : ∀ t, (order t).Perm t

/-- `uint64(n)` of a signed column. The SQLite driver does not bind an unsigned value above the
signed range, so that its columns hold no negative counter. -/
def toUint64 (n : ℤ) : ℕ := (n % 2 ^ 64).toNat

/-- A row of `metrics` as `Scan` fills it. -/
def scanMetric (r : Stored MetricRecord) : MetricRow where
  id := r.id
  timestamp := r.row.timestamp * second
  tenantID := r.row.tenantID
  serverID := r.row.serverID
  hostname := r.row.hostname
  cpuPct := r.row.cpuPct
  memPct := r.row.memPct
  diskFreeGB := r.row.diskFreeGB
  netSentBytes := toUint64 r.row.netSentBytes
  netRecvBytes := toUint64 r.row.netRecvBytes
  cpuCores := r.row.cpuCores
  memTotalGB := r.row.memTotalGB
  diskTotalGB := r.row.diskTotalGB
  diskReadOps := toUint64 r.row.diskReadOps
  diskWriteOps := toUint64 r.row.diskWriteOps
  diskIOPS := r.row.diskIOPS
  netMBps := r.row.netMBps
  concurrentUsers := r.row.concurrentUsers
  netSentExternal := toUint64 r.row.netSentExternal
  netRecvExternal := toUint64 r.row.netRecvExternal
  netSentInternal := toUint64 r.row.netSentInternal
  netRecvInternal := toUint64 r.row.netRecvInternal

/-- A row of `processes` as `Scan` fills it. -/
def scanProcess (r : Stored ProcessRecord) : ProcessRow where
  id := r.id
  timestamp := r.row.timestamp * second
  tenantID := r.row.tenantID
  serverID := r.row.serverID
  hostname := r.row.hostname
  pid := r.row.pid
  name := r.row.name
  cpuPct := r.row.cpuPct
  memMB := r.row.memMB

namespace HubDB

/-- The unexported `queryMetrics` of both backends. -/
def selectMetrics (q : MetricQuery) (allTenants : Bool) (db : HubDB) : List MetricRow :=
  (metricColumns.select q allTenants db.metrics).map scanMetric

def queryMetricsQ (q : MetricQuery) (db : HubDB) : Except StoreError (List MetricRow) :=
  if requireTenant q.tenantID then .ok (db.selectMetrics q false) else .error .tenantRequired

def queryMetrics (since : ℤ) (tenantID : String) (db : HubDB) :
    Except StoreError (List MetricRow) :=
  db.queryMetricsQ ⟨since, zeroTime, tenantID, "", 0, 0, 0⟩

def queryMetricsAllTenants (since limit : ℤ) (db : HubDB) : List MetricRow :=
  db.selectMetrics ⟨since, zeroTime, "", "", limit, 0, 0⟩ true

def queryProcessesQ (q : MetricQuery) (db : HubDB) : Except StoreError (List ProcessRow) :=
  if requireTenant q.tenantID then
    .ok ((processColumns.select q false db.processes).map scanProcess)
  else .error .tenantRequired

/-- `QueryProcesses`, which sorts by the timestamp alone. -/
def queryProcesses (scan : ScanOrder ProcessRecord) (since : ℤ) (tenantID : String) (db : HubDB) :
    Except StoreError (List ProcessRow) :=
  if requireTenant tenantID then
    let rows := (scan.order db.processes).filter
      (processColumns.meets ⟨since, zeroTime, tenantID, "", 0, 0, 0⟩ false)
    .ok (((rows.insertionSort (·.row.timestamp ≤ ·.row.timestamp)).take (boundedLimit 0)).map
      scanProcess)
  else .error .tenantRequired

/-- `SELECT DISTINCT server_id … ORDER BY server_id LIMIT`. -/
def queryServersPage (tenant : String) (limit : ℤ) (after : String) (db : HubDB) :
    Except StoreError (List String) :=
  if requireTenant tenant then
    let rows := db.metrics.filter fun r =>
      r.row.tenantID = tenant && r.row.serverID ≠ "" && (after = "" || after < r.row.serverID)
    .ok (((rows.map (·.row.serverID)).dedup.insertionSort (· ≤ ·)).take (boundedLimit limit))
  else .error .tenantRequired

end HubDB

/-! ## The audit log -/

structure AuditEvent where
  time : ℤ
  tenantID : String
  actorKind : String
  actorPrefix : String
  action : String
  targetType : String
  targetID : String
  deriving DecidableEq

/-- A row of `audit_events` without its id. -/
structure AuditRecord where
  ts : ℤ
  tenantID : String
  actorKind : String
  actorPrefix : String
  action : String
  targetType : String
  targetID : String
  deriving DecidableEq

def maxAuditRows : ℕ := 1000

def allowedAuditActions : List String :=
  ["session.login", "session.logout", "enroll.code_issued", "client.created", "agent.revoked",
    "agent.rotated", "enroll.completed", "admin.token_issued", "tenants.migrated"]

def AuditEvent.validate (e : AuditEvent) : Except StoreError Unit :=
  if !requireTenant e.tenantID then .error .tenantRequired
  else if !allowedAuditActions.contains e.action then
    .error (.audit "audit: unsupported action")
  else if len e.actorKind > 32 ∨ len e.actorPrefix > 16 ∨ len e.targetType > 32
      ∨ len e.targetID > 128 then
    .error (.audit "audit: field too long")
  else if e.actorPrefix.toList.any [' ', '\t', '\r', '\n'].contains then
    .error (.audit "audit: invalid actor prefix")
  else .ok ()

/-- The row `AppendAudit` inserts at `now`. -/
def AuditEvent.record (e : AuditEvent) (now : ℤ) : AuditRecord where
  ts := unix (if e.time = zeroTime then now else e.time)
  tenantID := e.tenantID
  actorKind := e.actorKind
  actorPrefix := e.actorPrefix
  action := e.action
  targetType := e.targetType
  targetID := e.targetID

/-- `scanAudit` of one row. -/
def scanAudit (r : AuditRecord) : AuditEvent where
  time := r.ts * second
  tenantID := r.tenantID
  actorKind := r.actorKind
  actorPrefix := r.actorPrefix
  action := r.action
  targetType := r.targetType
  targetID := r.targetID

/-- All tables of the Hub. -/
structure Database where
  hub : HubDB
  credentials : CredentialDB
  audit : List (Stored AuditRecord)
  lastAuditID : ℕ
  deriving DecidableEq

def Database.empty : Database := ⟨.empty, .empty, [], 0⟩

/-- `ORDER BY ts DESC, id DESC`. -/
def AuditBefore (a b : Stored AuditRecord) : Prop :=
  b.row.ts < a.row.ts ∨ (a.row.ts = b.row.ts ∧ b.id ≤ a.id)

instance : DecidableRel AuditBefore := fun _ _ =>
  inferInstanceAs (Decidable (_ < _ ∨ _ = _ ∧ _ ≤ _))

namespace Database

def appendAudit (e : AuditEvent) (now : ℤ) (db : Database) : Database × Except StoreError Unit :=
  match e.validate with
  | .error err => (db, .error err)
  | .ok () =>
    ({ db with audit := db.audit ++ [⟨db.lastAuditID + 1, e.record now⟩],
               lastAuditID := db.lastAuditID + 1 }, .ok ())

def listAudit (tenant : String) (limit : ℤ) (db : Database) :
    Except StoreError (List AuditEvent) :=
  if requireTenant tenant then
    let limit := if limit < 1 ∨ limit > maxAuditRows then maxAuditRows else limit.toNat
    let rows := (db.audit.filter (·.row.tenantID = tenant)).insertionSort AuditBefore
    .ok ((rows.take limit).map fun r => scanAudit r.row)
  else .error .tenantRequired

end Database

/-! ## Runs -/

/-- One call on the store on behalf of a tenant. -/
inductive StoreOp where
  | acceptIngest (tenant agent : String) (batch : IngestBatch) (policy : IngestPolicy) (now : ℤ)
  | queryMetricsQ (q : MetricQuery)
  | queryProcessesQ (q : MetricQuery)
  | queryServersPage (tenant : String) (limit : ℤ) (after : String)
  | appendAudit (e : AuditEvent) (now : ℤ)
  | listAudit (tenant : String) (limit : ℤ)
  deriving DecidableEq

def StoreOp.tenant : StoreOp → String
  | acceptIngest tenant _ _ _ _ => tenant
  | queryMetricsQ q => q.tenantID
  | queryProcessesQ q => q.tenantID
  | queryServersPage tenant _ _ => tenant
  | appendAudit e _ => e.tenantID
  | listAudit tenant _ => tenant

/-- What a call returns. -/
inductive StoreReply where
  | ingest (r : Except IngestError (List IngestOutcome))
  | metrics (r : Except StoreError (List MetricRow))
  | processes (r : Except StoreError (List ProcessRow))
  | servers (r : Except StoreError (List String))
  | appended (r : Except StoreError Unit)
  | audit (r : Except StoreError (List AuditEvent))

variable (K : EventCodec)

def StoreOp.step (op : StoreOp) (db : Database) : Database × StoreReply :=
  match op with
  | acceptIngest tenant agent batch policy now =>
    let (hub, r) := db.hub.acceptIngest K tenant agent batch policy now
    ({ db with hub := hub }, .ingest r)
  | queryMetricsQ q => (db, .metrics (db.hub.queryMetricsQ q))
  | queryProcessesQ q => (db, .processes (db.hub.queryProcessesQ q))
  | queryServersPage tenant limit after =>
    (db, .servers (db.hub.queryServersPage tenant limit after))
  | appendAudit e now =>
    let (db, r) := db.appendAudit e now
    (db, .appended r)
  | listAudit tenant limit => (db, .audit (db.listAudit tenant limit))

/-- What the calls of `tenant` return in a run of all of them. -/
def Database.repliesTo (tenant : String) : List StoreOp → Database → List StoreReply
  | [], _ => []
  | op :: ops, db =>
    let rest := repliesTo tenant ops (op.step K db).1
    if op.tenant = tenant then (op.step K db).2 :: rest else rest

end WMonitor
