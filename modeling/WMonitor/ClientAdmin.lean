import WMonitor.Issuance

/-!
# The commands of the administrator

The commands of `client_admin.go` that change the store. Each makes its change first and appends its
audit event then; a command that ends in `log.Fatal` stops with its text, and what it changed before
remains. What the commands print is not modelled, nor are the commands that only read.
-/

namespace WMonitor

open Handler

abbrev CommandM (α : Type) : Type := Handler Database String α

namespace ClientAdmin

variable (K : KeyTexts) (o : Occasion)

def credentialCall {α : Type} (f : CredentialDB → CredentialDB × α) : CommandM α :=
  call fun db => ({ db with credentials := (f db.credentials).1 }, (f db.credentials).2)

def random {α : Type} (n : ℕ) (fatal : String) (f : List UInt8 → α) : CommandM α :=
  match o.rand n with
  | .ok buf => pure (f buf)
  | .error _ => refuse fatal

/-- `AppendAudit`: whether it succeeded. -/
def appendAudit (ev : AuditEvent) : CommandM Bool :=
  call fun db =>
    match o.audit with
    | .before => (db, false)
    | .none => ((db.appendAudit ev (o.clock 9)).1, (db.appendAudit ev (o.clock 9)).2.isOk)
    | .after => ((db.appendAudit ev (o.clock 9)).1, false)

def recordCLIAudit (ev : AuditEvent) : CommandM Unit := do
  let ok ← appendAudit o ev
  refuseIf (ok = false) "audit unavailable"

/-- The event of a command. -/
def cliEvent (tenantID action targetType targetID : String) : AuditEvent :=
  ⟨zeroTime, tenantID, "cli", "cli", action, targetType, targetID⟩

def listAPIKeys : CommandM (List APIKeyRecord) := do
  let keys ← read (·.credentials)
  match keys.listAPIKeys (o.io 0) with
  | .error _ => refuse "credential registry unavailable"
  | .ok all => pure all

def upsertAPIKey (fatal : String) (r : APIKeyRecord) : CommandM Unit := do
  let stored ← credentialCall fun db => db.upsertAPIKey (o.io 1) r (unix (o.clock 2))
  match stored with
  | .error _ => refuse fatal
  | .ok () => pure ()

/-- A credential that a command issues. -/
def cliRecord (tenantID clientName keyHash keyPrefix kind scope : String) (expiresAt maxUses : ℤ) :
    APIKeyRecord where
  id := 0
  tenantID := tenantID
  clientName := clientName
  keyHash := keyHash
  keyPrefix := keyPrefix
  kind := kind
  scope := scope
  expiresAt := expiresAt
  maxUses := maxUses
  uses := 0
  serverID := ""
  issuedBy := "cli"
  createdAt := o.clock 1
  lastSeenAt := zeroTime
  revoked := false

/-! ## The commands -/

def newEnrollCode (name : String) (ttl uses : ℤ) : CommandM Unit := do
  let all ← listAPIKeys o
  match K.uniqueTenantForClientName all name with
  | .error _ => refuse "ambiguous client name; use tenant-scoped administration"
  | .ok tenant => do
    refuseIf (tenant = "") "create the client explicitly before issuing enrollment codes"
    let code ← random o 0 "code generation failed" generateEnrollCode
    upsertAPIKey o "code issuance failed"
      (cliRecord o tenant name (K.hashEnrollCode code) "wme_" kindEnroll scopeEnroll (o.clock 0 + ttl) uses)
    recordCLIAudit o (cliEvent tenant "enroll.code_issued" "client" name)

def newAdminToken : CommandM Unit := do
  let token ← random o 0 "token generation failed" (generateToken kindAdmin)
  upsertAPIKey o "admin token issuance failed"
    (cliRecord o "admin" "Admin" (K.hashAPIKey token) (K.extractKeyPrefix token) kindAdmin scopeAdmin
      zeroTime 0)
  recordCLIAudit o (cliEvent "admin" "admin.token_issued" "admin" "Admin")

def addClient (name : String) : CommandM Unit := do
  let all ← listAPIKeys o
  refuseIf (all.any fun record => K.equalFold record.clientName name)
    "client name already exists; no duplicate identity was created"
  let tenant ← random o 0 "tenant generation failed" newTenantID
  let token ← random o 1 "token generation failed" (generateToken kindRead)
  upsertAPIKey o "client creation failed"
    (cliRecord o tenant name (K.hashAPIKey token) (K.extractKeyPrefix token) kindRead scopeRead zeroTime 0)
  recordCLIAudit o (cliEvent tenant "client.created" "client" name)

def revokeClient (name : String) : CommandM Unit := do
  let all ← listAPIKeys o
  match K.uniqueTenantForClientName all name with
  | .error _ => refuse "ambiguous client name; nothing revoked"
  | .ok tenant => do
    let revoked ← credentialCall fun db => db.revokeAPIKey (o.io 1) name (unix (o.clock 2))
    match revoked with
    | .error _ => refuse "revocation failed"
    | .ok _ =>
      if tenant ≠ "" then recordCLIAudit o (cliEvent tenant "client.revoked" "client" name)
      else pure ()

/-- The tenants in which the server has an agent that is not revoked. -/
def agentTenants (serverID : String) (db : CredentialDB) : List String :=
  ((db.apiKeys.filter fun k => k.kind = kindAgent && k.serverID = serverID && k.revokedAt = 0).map
    (·.tenantID)).dedup

def revokeAgent (serverID : String) : CommandM Unit := do
  refuseIf ((o.io 0 0).isSome) "agent registry unavailable"
  let tenants ← read fun db => agentTenants serverID db.credentials
  match tenants with
  | [] => pure ()
  | [tenant] => do
    let revoked ← credentialCall fun db => db.revokeAgent (o.io 1) tenant serverID (unix (o.clock 2))
    match revoked with
    | .error _ => refuse "agent revocation failed"
    | .ok _ => recordCLIAudit o (cliEvent tenant "agent.revoked" "agent" serverID)
  | _ => refuse "agent ID occurs in multiple tenants; nothing revoked"

/-- `sqlite` is whether the store is one of SQLite. -/
def runOpaqueTenantMigration (sqlite : Bool) (m : Migration) : CommandM Unit := do
  refuseIf (sqlite = false ∨ m.backupDir = "")
    "opaque migration requires SQLite and an explicit verified backup directory"
  let report ← call fun db => db.migrateOpaqueTenants m
  match report with
  | .error _ =>
    refuse "opaque migration failed; review the backup and transaction state before retrying"
  | .ok _ => recordCLIAudit o (cliEvent "admin" "tenants.migrated" "migration" "opaque")

inductive Command
  | newEnrollCode (name : String) (ttl uses : ℤ)
  | newAdminToken
  | addClient (name : String)
  | revokeClient (name : String)
  | revokeAgent (serverID : String)
  | migrateOpaqueTenants (sqlite : Bool) (m : Migration)

def runClientAdmin : Command → CommandM Unit
  | .newEnrollCode name ttl uses => newEnrollCode K o name ttl uses
  | .newAdminToken => newAdminToken K o
  | .addClient name => addClient K o name
  | .revokeClient name => revokeClient K o name
  | .revokeAgent serverID => revokeAgent o serverID
  | .migrateOpaqueTenants sqlite m => runOpaqueTenantMigration o sqlite m

end ClientAdmin

end WMonitor
