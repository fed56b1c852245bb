import WMonitor.Ingest
import WMonitor.Run

/-!
# The Hub's credential store

`storage/apikeys.go` and `storage/enrollment.go`: enrollment codes and agent tokens live in
`api_keys`, the plaintext of a token just issued in `enrollment_handshakes` until the agent uses it
or `HandshakeTTL` has passed. SQLite and Postgres run the same statements, so one model serves both.

`now` is `time.Now().Unix()` of the call. The driver may fail any statement of a call: `io n` is
the error of the `n`-th one, if any.
-/

namespace WMonitor

def kindEnroll : String := "enroll"
def kindAgent : String := "agent"
def scopeIngest : String := "ingest"

/-- `HandshakeTTL`, in seconds. -/
def handshakeTTL : ℤ := 5 * 60

/-- A row of `api_keys`. -/
structure APIKey where
  id : ℕ
  keyHash : String
  tenantID : String
  clientName : String
  kind : String
  scope : String
  keyPrefix : String
  expiresAt : ℤ
  maxUses : ℤ
  uses : ℤ
  serverID : String
  issuedBy : String
  createdAt : ℤ
  lastSeenAt : ℤ
  revokedAt : ℤ
  deriving DecidableEq

/-- A row of `enrollment_handshakes`. -/
structure Handshake where
  codeHash : String
  serverID : String
  tenantID : String
  token : String
  keyHash : String
  createdAt : ℤ
  expiresAt : ℤ
  deriving DecidableEq

def Handshake.key (h : Handshake) : String × String := (h.codeHash, h.serverID)

structure AuthEpoch where
  epoch : ℤ
  updatedAt : ℤ
  deriving DecidableEq

structure CredentialDB where
  apiKeys : List APIKey
  handshakes : List Handshake
  authEpoch : AuthEpoch
  lastID : ℕ
  deriving DecidableEq

def CredentialDB.empty : CredentialDB := ⟨[], [], ⟨0, 0⟩, 0⟩

/-- `APIKeyRecord`, its times in nanoseconds. -/
structure APIKeyRecord where
  id : ℕ
  tenantID : String
  clientName : String
  keyHash : String
  keyPrefix : String
  kind : String
  scope : String
  expiresAt : ℤ
  maxUses : ℤ
  uses : ℤ
  serverID : String
  issuedBy : String
  createdAt : ℤ
  lastSeenAt : ℤ
  revoked : Bool
  deriving DecidableEq

/-- `scanAPIKey`. -/
def scanAPIKey (k : APIKey) : APIKeyRecord where
  id := k.id
  tenantID := k.tenantID
  clientName := k.clientName
  keyHash := k.keyHash
  keyPrefix := k.keyPrefix
  kind := k.kind
  scope := k.scope
  expiresAt := k.expiresAt * second
  maxUses := k.maxUses
  uses := k.uses
  serverID := k.serverID
  issuedBy := k.issuedBy
  createdAt := k.createdAt * second
  lastSeenAt := k.lastSeenAt * second
  revoked := k.revokedAt ≠ 0

structure EnrollmentRequest where
  codeHash : String
  serverID : String
  currentTokenHash : String
  operatorApproved : Bool
  token : String
  tokenHash : String
  tokenPrefix : String
  deriving DecidableEq

structure EnrollmentResult where
  tenantID : String
  clientName : String
  serverID : String
  token : String
  tokenHash : String
  recovered : Bool
  revokedHashes : List String
  deriving DecidableEq

inductive CredentialError
  | apiKeyNotFound
  | rotationRequiresProof
  | enrollmentConflict
  | missingCredentialFields
  | unique
  | invalid (text : String)
  | driver (text : String)
  deriving DecidableEq

/-- The error of each statement of a call, by its number. -/
abbrev Driver := ℕ → Option String

def Driver.exec (io : Driver) (n : ℕ) : Except CredentialError Unit :=
  match io n with
  | none => .ok ()
  | some e => .error (.driver e)

/-! ## Statements -/

/-- `kind = 'agent' AND revoked_at = 0`. -/
def APIKey.active (k : APIKey) : Bool := k.kind = kindAgent && k.revokedAt = 0

def APIKey.activeFor (tenant server : String) (k : APIKey) : Bool :=
  k.tenantID = tenant && k.serverID = server && k.active

/-- `key_hash` is unique, and so is `(tenant_id, server_id)` among active agents of a server. -/
def APIKey.clash (k k' : APIKey) : Bool :=
  k.keyHash = k'.keyHash
    || (k.active && k.serverID ≠ "" && k'.activeFor k.tenantID k.serverID)

namespace CredentialDB

def insertKey (k : APIKey) (db : CredentialDB) : Option CredentialDB :=
  (Table.insert APIKey.clash { k with id := db.lastID + 1 } db.apiKeys).map fun t =>
    { db with apiKeys := t, lastID := db.lastID + 1 }

def activeAgentHashes (tenant server : String) (db : CredentialDB) : List String :=
  (db.apiKeys.filter (APIKey.activeFor tenant server)).map (·.keyHash)

/-- A code whose next use the database still counts. -/
def usable (codeHash : String) (now : ℤ) (k : APIKey) : Bool :=
  k.keyHash = codeHash && k.revokedAt = 0 && k.kind = kindEnroll
    && (k.expiresAt = 0 || k.expiresAt > now) && (k.maxUses = 0 || k.uses < k.maxUses)

def countUse (codeHash : String) (now : ℤ) (db : CredentialDB) : CredentialDB :=
  let count (k : APIKey) := { k with uses := k.uses + 1 }
  { db with apiKeys := Table.update (usable codeHash now) count db.apiKeys }

/-- `UPDATE api_keys SET revoked_at = now WHERE p AND revoked_at = 0`. -/
def revokeWhere (p : APIKey → Bool) (now : ℤ) (db : CredentialDB) : CredentialDB :=
  let keys := Table.update (fun k => p k && k.revokedAt = 0) ({ · with revokedAt := now }) db.apiKeys
  { db with apiKeys := keys }

def bumpAuthEpoch (now : ℤ) (db : CredentialDB) : CredentialDB :=
  { db with authEpoch := ⟨db.authEpoch.epoch + 1, now⟩ }

/-- `INSERT INTO enrollment_handshakes … ON CONFLICT DO UPDATE`. -/
def putHandshake (h : Handshake) (db : CredentialDB) : CredentialDB :=
  if db.handshakes.any (·.key = h.key) then
    { db with handshakes := Table.update (·.key = h.key) (fun _ => h) db.handshakes }
  else { db with handshakes := db.handshakes ++ [h] }

/-- The handshake of the code for the server that has not expired, joined with the code's row. -/
def recoverable (codeHash serverID : String) (now : ℤ) (db : CredentialDB) :
    Option (Handshake × APIKey) :=
  match db.handshakes.find? fun h => h.key = (codeHash, serverID) && h.expiresAt > now with
  | none => none
  | some h => (Table.lookup (·.keyHash) h.codeHash db.apiKeys).map (h, ·)

def enrollCode (codeHash : String) (db : CredentialDB) : Option APIKey :=
  db.apiKeys.find? fun k => k.keyHash = codeHash && k.kind = kindEnroll

end CredentialDB

def replacementAllowed (active : List String) (currentHash : String) (operator : Bool) : Bool :=
  if operator then true
  else if currentHash = "" then false
  else active.contains currentHash

/-! ## Enrollment -/

/-- The agent credential an enrollment issues. -/
def EnrollmentRequest.row (req : EnrollmentRequest) (code : APIKey) (now : ℤ) : APIKey where
  id := 0
  keyHash := req.tokenHash
  tenantID := code.tenantID
  clientName := code.clientName
  kind := kindAgent
  scope := scopeIngest
  keyPrefix := req.tokenPrefix
  expiresAt := 0
  maxUses := 0
  uses := 0
  serverID := req.serverID
  issuedBy := "enroll:" ++ code.clientName
  createdAt := now
  lastSeenAt := 0
  revokedAt := 0

def EnrollmentRequest.handshake (req : EnrollmentRequest) (code : APIKey) (now : ℤ) :
    Handshake where
  codeHash := req.codeHash
  serverID := req.serverID
  tenantID := code.tenantID
  token := req.token
  keyHash := req.tokenHash
  createdAt := now
  expiresAt := now + handshakeTTL

/-- The code is revoked, past its expiry or used up. -/
def APIKey.spent (k : APIKey) (now : ℤ) : Bool :=
  k.revokedAt ≠ 0 || (k.expiresAt > 0 && now > k.expiresAt) || (k.maxUses > 0 && k.uses ≥ k.maxUses)

/-- `CompleteEnrollment` from the new credential to the commit. -/
def grant (io : Driver) (req : EnrollmentRequest) (code : APIKey) (active : List String)
    (now : ℤ) (db : CredentialDB) : Except CredentialError (CredentialDB × EnrollmentResult) := do
  io.exec 8
  match db.insertKey (req.row code now) with
  | none => throw .enrollmentConflict
  | some db =>
    io.exec 9
    let db := db.putHandshake (req.handshake code now)
    io.exec 10
    let db := db.bumpAuthEpoch now
    io.exec 11
    return (db, ⟨code.tenantID, code.clientName, req.serverID, req.token, req.tokenHash, false,
      active⟩)

/-- `CompleteEnrollment` from the count of the use to the revocation of the active agents. -/
def rotate (io : Driver) (req : EnrollmentRequest) (code : APIKey) (active : List String)
    (now : ℤ) (db : CredentialDB) : Except CredentialError (CredentialDB × EnrollmentResult) := do
  io.exec 6
  if (db.apiKeys.filter (CredentialDB.usable req.codeHash now)).length ≠ 1 then
    throw .apiKeyNotFound
  let db := db.countUse req.codeHash now
  if active = [] then grant io req code active now db
  else
    io.exec 7
    let db := db.revokeWhere (APIKey.activeFor code.tenantID req.serverID) now
    grant io req code active now db

/-- `CompleteEnrollment` when there is no handshake to recover. -/
def issue (io : Driver) (req : EnrollmentRequest) (now : ℤ) (db : CredentialDB) :
    Except CredentialError (CredentialDB × EnrollmentResult) := do
  io.exec 4
  match db.enrollCode req.codeHash with
  | none => throw .apiKeyNotFound
  | some code =>
    if code.spent now then throw .apiKeyNotFound
    io.exec 5
    let active := db.activeAgentHashes code.tenantID req.serverID
    if active ≠ [] && !replacementAllowed active req.currentTokenHash req.operatorApproved then
      throw .rotationRequiresProof
    rotate io req code active now db

/-- The transaction of `CompleteEnrollment`. -/
def enroll (io : Driver) (req : EnrollmentRequest) (now : ℤ) (db : CredentialDB) :
    Except CredentialError (CredentialDB × EnrollmentResult) := do
  if req.codeHash = "" || req.serverID = "" then
    throw (.invalid "storage: enrollment needs code and server_id")
  if req.token = "" || req.tokenHash = "" then
    throw (.invalid "storage: enrollment needs issued token")
  io.exec 0
  io.exec 1
  io.exec 2
  match db.recoverable req.codeHash req.serverID now with
  | some (h, code) =>
    io.exec 3
    return (db, ⟨h.tenantID, code.clientName, req.serverID, h.token, h.keyHash, true, []⟩)
  | none => issue io req now db

def CredentialDB.completeEnrollment (io : Driver) (req : EnrollmentRequest) (now : ℤ)
    (db : CredentialDB) : CredentialDB × Except CredentialError EnrollmentResult :=
  Table.transact (enroll io req now) db

/-- The agent credential `ReplaceAgent` issues. -/
def replacementRow (tenant server tokenHash pfx clientName : String) (now : ℤ) : APIKey where
  id := 0
  keyHash := tokenHash
  tenantID := tenant
  clientName := clientName
  kind := kindAgent
  scope := scopeIngest
  keyPrefix := pfx
  expiresAt := 0
  maxUses := 0
  uses := 0
  serverID := server
  issuedBy := "operator-replace"
  createdAt := now
  lastSeenAt := 0
  revokedAt := 0

/-- `SELECT client_name … LIMIT 1`, whose error `ReplaceAgent` ignores. -/
def CredentialDB.agentClientName (io : Driver) (tenant server : String) (db : CredentialDB) :
    String :=
  match io 3, db.apiKeys.find? fun k =>
      k.tenantID = tenant && k.serverID = server && k.kind = kindAgent with
  | none, some k => k.clientName
  | _, _ => ""

/-- The transaction of `ReplaceAgent`. -/
def replace (io : Driver) (tenant server token tokenHash pfx : String) (now : ℤ)
    (db : CredentialDB) : Except CredentialError (CredentialDB × EnrollmentResult) := do
  if tenant = "" || server = "" || token = "" || tokenHash = "" then
    throw (.invalid "storage: replace agent needs tenant, server and token")
  io.exec 0
  io.exec 1
  io.exec 2
  let active := db.activeAgentHashes tenant server
  if active = [] then throw .apiKeyNotFound
  let clientName := db.agentClientName io tenant server
  io.exec 4
  let db := db.revokeWhere (APIKey.activeFor tenant server) now
  io.exec 5
  match db.insertKey (replacementRow tenant server tokenHash pfx clientName now) with
  | none => throw .enrollmentConflict
  | some db =>
    io.exec 6
    let db := db.bumpAuthEpoch now
    io.exec 7
    return (db, ⟨tenant, clientName, server, token, tokenHash, false, active⟩)

def CredentialDB.replaceAgent (io : Driver) (tenant server token tokenHash pfx : String) (now : ℤ)
    (db : CredentialDB) : CredentialDB × Except CredentialError EnrollmentResult :=
  Table.transact (replace io tenant server token tokenHash pfx now) db

/-- `UPDATE … SET uses = uses + 1 … RETURNING`, one statement. -/
def consume (io : Driver) (codeHash : String) (now : ℤ) (db : CredentialDB) :
    Except CredentialError (CredentialDB × APIKeyRecord) := do
  io.exec 0
  match db.apiKeys.find? (CredentialDB.usable codeHash now) with
  | none => throw .apiKeyNotFound
  | some k => return (db.countUse codeHash now, scanAPIKey { k with uses := k.uses + 1 })

def CredentialDB.consumeEnrollCode (io : Driver) (codeHash : String) (now : ℤ)
    (db : CredentialDB) : CredentialDB × Except CredentialError APIKeyRecord :=
  Table.transact (consume io codeHash now) db

/-! ## Lookup, use, registration and revocation -/

def CredentialDB.resolveAPIKey (io : Driver) (keyHash : String) (now : ℤ) (db : CredentialDB) :
    Except CredentialError APIKeyRecord := do
  io.exec 0
  match Table.lookup (·.keyHash) keyHash db.apiKeys with
  | none => throw .apiKeyNotFound
  | some k =>
    if k.kind = kindEnroll then throw .apiKeyNotFound
    if k.revokedAt ≠ 0 then throw .apiKeyNotFound
    if k.expiresAt > 0 && now ≥ k.expiresAt then throw .apiKeyNotFound
    if k.maxUses > 0 && k.uses ≥ k.maxUses then throw .apiKeyNotFound
    return scanAPIKey k

/-- `TouchAPIKey`: two statements outside a transaction. -/
def CredentialDB.touchAPIKey (io : Driver) (keyHash : String) (now : ℤ) (db : CredentialDB) :
    CredentialDB × Except CredentialError Unit :=
  match io.exec 0 with
  | .error e => (db, .error e)
  | .ok () =>
    let keys := Table.update (·.keyHash = keyHash) ({ · with lastSeenAt := now }) db.apiKeys
    let db := { db with apiKeys := keys }
    match io.exec 1 with
    | .error e => (db, .error e)
    | .ok () =>
      ({ db with handshakes := Table.delete (·.keyHash = keyHash) db.handshakes }, .ok ())

/-- The row `UpsertAPIKey` writes for a new key. -/
def APIKeyRecord.row (r : APIKeyRecord) (now : ℤ) : APIKey where
  id := 0
  keyHash := r.keyHash
  tenantID := r.tenantID
  clientName := r.clientName
  kind := r.kind
  scope := r.scope
  keyPrefix := r.keyPrefix
  expiresAt := if r.expiresAt = zeroTime then 0 else unix r.expiresAt
  maxUses := r.maxUses
  uses := r.uses
  serverID := r.serverID
  issuedBy := r.issuedBy
  createdAt := if r.createdAt = zeroTime then now else unix r.createdAt
  lastSeenAt := 0
  revokedAt := 0

/-- `ON CONFLICT(key_hash) DO UPDATE`: the uses and the times of the old row stay. -/
def APIKeyRecord.overwrite (r : APIKeyRecord) (now : ℤ) (k : APIKey) : APIKey :=
  { r.row now with
    id := k.id
    uses := k.uses
    createdAt := k.createdAt
    lastSeenAt := k.lastSeenAt
    revokedAt := k.revokedAt }

/-- The statement of `UpsertAPIKey`, refused when it breaks the index on active agents. -/
def upsert (io : Driver) (r : APIKeyRecord) (now : ℤ) (db : CredentialDB) :
    Except CredentialError (CredentialDB × Unit) := do
  if r.keyHash = "" || r.tenantID = "" then
    throw (.invalid "storage: api key record needs KeyHash and TenantID")
  if r.kind = "" || r.scope = "" then throw .missingCredentialFields
  io.exec 0
  match Table.lookup (·.keyHash) r.keyHash db.apiKeys with
  | none =>
    match db.insertKey (r.row now) with
    | none => throw .unique
    | some db => return (db, ())
  | some k =>
    if db.apiKeys.any fun k' => k'.keyHash ≠ r.keyHash && (r.overwrite now k).clash k' then
      throw .unique
    let keys := Table.update (·.keyHash = r.keyHash) (r.overwrite now) db.apiKeys
    return ({ db with apiKeys := keys }, ())

def CredentialDB.upsertAPIKey (io : Driver) (r : APIKeyRecord) (now : ℤ) (db : CredentialDB) :
    CredentialDB × Except CredentialError Unit :=
  Table.transact (upsert io r now) db

/-- A revocation and the count of the rows it revoked: two statements outside a transaction, the
second only when the first revoked something. -/
def CredentialDB.revoke (io : Driver) (p : APIKey → Bool) (now : ℤ) (db : CredentialDB) :
    CredentialDB × Except CredentialError ℕ :=
  match io.exec 0 with
  | .error e => (db, .error e)
  | .ok () =>
    let n := (db.apiKeys.filter fun k => p k && k.revokedAt = 0).length
    let db := db.revokeWhere p now
    if n > 0 then
      match io.exec 1 with
      | .error e => (db, .error e)
      | .ok () => (db.bumpAuthEpoch now, .ok n)
    else (db, .ok n)

def CredentialDB.revokeAPIKey (io : Driver) (clientName : String) (now : ℤ) (db : CredentialDB) :
    CredentialDB × Except CredentialError ℕ :=
  db.revoke io (·.clientName = clientName) now

def CredentialDB.revokeKeyHash (io : Driver) (keyHash : String) (now : ℤ) (db : CredentialDB) :
    CredentialDB × Except CredentialError ℕ :=
  if keyHash = "" then (db, .error (.invalid "storage: key hash is required"))
  else db.revoke io (·.keyHash = keyHash) now

def CredentialDB.revokeAgent (io : Driver) (tenant server : String) (now : ℤ)
    (db : CredentialDB) : CredentialDB × Except CredentialError ℕ :=
  db.revoke io (fun k => k.tenantID = tenant && k.serverID = server && k.kind = kindAgent) now

/-! ## Runs -/

inductive CredentialOp
  | upsertAPIKey (r : APIKeyRecord)
  | completeEnrollment (req : EnrollmentRequest)
  | replaceAgent (tenant server token tokenHash pfx : String)
  | consumeEnrollCode (codeHash : String)
  | touchAPIKey (keyHash : String)
  | revokeAPIKey (clientName : String)
  | revokeKeyHash (keyHash : String)
  | revokeAgent (tenant server : String)

/-- An operation, the time it runs at and what the driver answers. -/
structure CredentialCall where
  op : CredentialOp
  now : ℤ
  io : Driver

def CredentialDB.step (db : CredentialDB) (c : CredentialCall) : CredentialDB :=
  match c.op with
  | .upsertAPIKey r => (db.upsertAPIKey c.io r c.now).1
  | .completeEnrollment req => (db.completeEnrollment c.io req c.now).1
  | .replaceAgent tenant server token tokenHash pfx =>
    (db.replaceAgent c.io tenant server token tokenHash pfx c.now).1
  | .consumeEnrollCode codeHash => (db.consumeEnrollCode c.io codeHash c.now).1
  | .touchAPIKey keyHash => (db.touchAPIKey c.io keyHash c.now).1
  | .revokeAPIKey clientName => (db.revokeAPIKey c.io clientName c.now).1
  | .revokeKeyHash keyHash => (db.revokeKeyHash c.io keyHash c.now).1
  | .revokeAgent tenant server => (db.revokeAgent c.io tenant server c.now).1

/-- The store after the calls, from an empty one. -/
def credentials (calls : List CredentialCall) : CredentialDB :=
  Run.run CredentialDB.step .empty calls

/-- The call committed a use of the code: a consumption, or an enrollment that was not a recovery. -/
def CredentialCall.uses (c : CredentialCall) (codeHash : String) (db : CredentialDB) : Bool :=
  match c.op with
  | .completeEnrollment req =>
    match (db.completeEnrollment c.io req c.now).2 with
    | .ok r => req.codeHash = codeHash && !r.recovered
    | .error _ => false
  | .consumeEnrollCode code =>
    match (db.consumeEnrollCode c.io code c.now).2 with
    | .ok _ => code = codeHash
    | .error _ => false
  | _ => false

/-- The number of uses of the code that the calls committed. -/
def committedUses (codeHash : String) : List CredentialCall → CredentialDB → ℕ
  | [], _ => 0
  | c :: calls, db =>
    (c.uses codeHash db).toNat + committedUses codeHash calls (db.step c)

end WMonitor
