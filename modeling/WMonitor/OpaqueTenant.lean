import WMonitor.Store

/-!
# The migration to opaque tenant ids

`storage/opaque_tenant.go`: after a copy of the database file, one transaction gives every tenant id
that is not opaque a new random one, in `api_keys`, `metrics` and `processes`. Only SQLite has it.
The copy of the file and the schema statements before it are not modelled: the migration is given
the path of the copy, or its error.
-/

namespace WMonitor

def isHexDigit (c : Char) : Bool :=
  ('0' ≤ c && c ≤ '9') || ('a' ≤ c && c ≤ 'f') || ('A' ≤ c && c ≤ 'F')

def isOpaqueTenantID (tenantID : String) : Bool :=
  if tenantID = "" || tenantID = "admin" then true
  else match tenantID.toList with
    | 't' :: '_' :: hexPart =>
      if len (String.ofList hexPart) < 16 then false else hexPart.all isHexDigit
    | _ => false

/-- `NewTenantID` of 16 random bytes. -/
def newTenantID (buf : List UInt8) : String := "t_" ++ hexEncode buf

structure OpaqueTenantReport where
  backupPath : String
  credentialsMoved : ℕ
  metricsMoved : ℕ
  processesMoved : ℕ
  deriving DecidableEq

/-- What a migration meets outside the database: the copy of the file, the random bytes of the new
ids, the order in which the map of the old ids is read, and the errors of the driver. -/
structure Migration where
  backupDir : String
  backup : Except String String
  random : ℕ → Except String (List UInt8)
  order : List String → List String
  io : Driver
  bytes : ∀ n buf, random n = .ok buf → buf.length = 16
  perm : ∀ ids, (order ids).Perm ids

namespace Database

variable (m : Migration)

/-- The ids that `collectPlaintextTenantIDs` has in its map. -/
def plaintextTenantIDs (db : Database) : List String :=
  let ids := db.credentials.apiKeys.map (·.tenantID) ++ db.hub.metrics.map (·.row.tenantID)
    ++ db.hub.processes.map (·.row.tenantID)
  (ids.filter fun id => id ≠ "" && !isOpaqueTenantID id).dedup

def setKeyTenant (oldID newID : String) : List APIKey → List APIKey :=
  Table.update (·.tenantID = oldID) ({ · with tenantID := newID })

def setMetricTenant (oldID newID : String) : List (Stored MetricRecord) → List (Stored MetricRecord) :=
  Table.update (·.row.tenantID = oldID) (fun r => { r with row.tenantID := newID })

def setProcessTenant (oldID newID : String) :
    List (Stored ProcessRecord) → List (Stored ProcessRecord) :=
  Table.update (·.row.tenantID = oldID) (fun r => { r with row.tenantID := newID })

/-- The loop over the old ids, of which `n` are done. The update of `api_keys` is refused when it
breaks an index. -/
def remapTenants : ℕ → List String → OpaqueTenantReport → Database →
    Except CredentialError (Database × OpaqueTenantReport)
  | _, [], report, db => .ok (db, report)
  | n, oldID :: oldIDs, report, db => do
    match m.random n with
    | .error text => throw (.invalid ("generate tenant id: " ++ text))
    | .ok buf =>
      let newID := newTenantID buf
      m.io.exec (4 + 3 * n)
      let keys := setKeyTenant oldID newID db.credentials.apiKeys
      if !decide (keys.Pairwise fun k k' => k.clash k' = false) then throw .unique
      m.io.exec (5 + 3 * n)
      m.io.exec (6 + 3 * n)
      remapTenants (n + 1) oldIDs
        { report with
          credentialsMoved := report.credentialsMoved
            + db.credentials.apiKeys.countP (·.tenantID = oldID)
          metricsMoved := report.metricsMoved + db.hub.metrics.countP (·.row.tenantID = oldID)
          processesMoved := report.processesMoved
            + db.hub.processes.countP (·.row.tenantID = oldID) }
        { db with
          credentials.apiKeys := keys
          hub.metrics := setMetricTenant oldID newID db.hub.metrics
          hub.processes := setProcessTenant oldID newID db.hub.processes }

/-- The transaction of `MigrateOpaqueTenants`. -/
def remap (backupPath : String) (db : Database) :
    Except CredentialError (Database × OpaqueTenantReport) := do
  m.io.exec 0
  m.io.exec 1
  m.io.exec 2
  m.io.exec 3
  let oldIDs := m.order db.plaintextTenantIDs
  let (db, report) ← db.remapTenants m 0 oldIDs ⟨backupPath, 0, 0, 0⟩
  m.io.exec (4 + 3 * oldIDs.length)
  return (db, report)

def migrateOpaqueTenants (db : Database) : Database × Except CredentialError OpaqueTenantReport :=
  if m.backupDir = "" then
    (db, .error (.invalid "storage: opaque tenant migration requires a backup directory"))
  else match m.backup with
    | .error text =>
      (db, .error (.invalid ("backup failed (migration not started): " ++ text)))
    | .ok backupPath => Table.transact (remap m backupPath) db

end Database

example : isOpaqueTenantID "t_local" = false := by decide

/-! ## Runs -/

/-- A call on the credential store, or a migration. -/
inductive IdentityStep where
  | call (c : CredentialCall)
  | migrate (m : Migration)

def Database.identityStep (db : Database) : IdentityStep → Database
  | .call c => { db with credentials := db.credentials.step c }
  | .migrate m => (db.migrateOpaqueTenants m).1

end WMonitor
