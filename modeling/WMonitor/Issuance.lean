import WMonitor.Handler
import WMonitor.APIKeys
import WMonitor.Sessions
import WMonitor.OpaqueTenant
import WMonitor.Spool
import WMonitor.DrainLoop

/-!
# The requests that issue credentials

`handleEnroll`, `handleAdminEnrollCodes`, the `POST` of `handleAdminClients` and
`handleAdminAgentRotate` of `server/enroll.go`, the `POST` of `handleSession` of `server/session.go`, and
`server/audit.go`. A credential is written first and audited then; each handler has its own way to take
the credential back when the audit fails.

A request comes with what the parts that are not modelled made of it: whether it is over HTTPS, from the
same origin and within the limits, what the cache of keys has for it, and its decoded body. The cache and
its epoch are not part of the state here, nor is the use of a key that `authPrincipal` notes later.
-/

namespace WMonitor

open Handler

structure Server where
  /-- A Hub has its store of keys, which is an `AdminStore`; other servers have none. -/
  hubMode : Bool
  db : Database
  sessions : SessionStore

/-- An answer that is an error. -/
structure Refusal where
  status : ℕ
  text : String
  deriving DecidableEq

/-- The other answers: a token, a code, a client with its token, or a session with its cookie. -/
inductive Issued
  | agent (token tenantID serverID : String)
  | code (code clientName tenantID : String) (expiresAt maxUses : ℤ)
  | client (clientName tenantID readToken : String)
  | session (id : String) (maxAge : ℤ) (clientName tenantID : String)
  deriving DecidableEq

def Issued.status : Issued → ℕ
  | .session .. => 200
  | _ => 201

/-- What a handler meets outside: the readings of the clock, which is past 1970, random bytes, the errors
of each call of the store, how the audit goes, and the order in which the sessions are read. -/
structure Occasion where
  clock : ℕ → ℤ
  past : ∀ n, 0 < unix (clock n)
  rand : ℕ → Except String (List UInt8)
  io : ℕ → Driver
  audit : Fault
  order : SessionStore → List (RangeMap.Entry String SessionEntry)

/-- The same, with a store that does not fail but for the audit. -/
def Occasion.healthy (o : Occasion) : Occasion := { o with io := fun _ _ => none }

structure Request (β : Type) where
  method : String
  https : Bool
  loopback : Bool
  sameOrigin : Bool
  limited : Bool
  /-- The query parameter `api_key`. -/
  apiKeyQuery : String
  /-- The header `X-API-Key`. -/
  apiKey : String
  /-- The cookie `wmonitor_session`. -/
  cookie : Option String
  cached : Option AuthCacheEntry
  /-- The body, if it could be decoded. -/
  body : Option β

abbrev ServerM (α : Type) : Type := Handler Server Refusal α

namespace Server

variable (K : KeyTexts) (o : Occasion)

/-- A call of the credential store. -/
def credentialCall {α : Type} (f : CredentialDB → CredentialDB × α) : ServerM α :=
  call fun s => ({ s with db.credentials := (f s.db.credentials).1 }, (f s.db.credentials).2)

def random {α : Type} (n : ℕ) (e : Refusal) (f : List UInt8 → α) : ServerM α :=
  match o.rand n with
  | .ok buf => pure (f buf)
  | .error _ => refuse e

/-- `s.keys`, and that it is an `AdminStore`. -/
def needKeys (e : Refusal) : ServerM Unit := do
  let hubMode ← read (·.hubMode)
  refuseIf (hubMode = false) e

/-! ## The audit -/

/-- `recordAudit`: whether it succeeded. -/
def recordAudit (n : ℕ) (ev : AuditEvent) : ServerM Bool :=
  call fun s =>
    match o.audit with
    | .before => (s, false)
    | .none =>
      let (db, r) := s.db.appendAudit ev (o.clock n)
      ({ s with db := db }, r.isOk)
    | .after => ({ s with db := (s.db.appendAudit ev (o.clock n)).1 }, false)

/-- The audit of a credential that was issued; `takeBack` is what the handler does if it fails. -/
def audited (n : ℕ) (ev : AuditEvent) (takeBack : ServerM Unit) : ServerM Unit := do
  let ok ← recordAudit o n ev
  if ok then pure ()
  else do
    takeBack
    refuse ⟨503, "audit unavailable"⟩

def revokeUnauditedHash (n : ℕ) (hash : String) : ServerM Unit := do
  if hash = "" then pure ()
  else do
    let _ ← credentialCall fun db => db.revokeKeyHash (o.io n) hash (unix (o.clock n))

def actorPrefix (n : ℕ) (kind credHash : String) : ServerM String := do
  let keys ← read (·.db.credentials)
  if credHash = "" then pure kind
  else match keys.resolveAPIKey (o.io n) credHash (unix (o.clock n)) with
    | .error _ => pure kind
    | .ok rec => if rec.keyPrefix = "" then pure kind else pure rec.keyPrefix

/-! ## Authentication -/

def lookupSession (n : ℕ) (cookie : Option String) : ServerM (Option SessionEntry) := do
  match cookie with
  | none => pure none
  | some id =>
    if len id ≠ len sessionIDPrefix + 64 ∨ ¬ sessionIDPrefix.toList.isPrefixOf id.toList then pure none
    else do
      let found ← call fun s =>
        ({ s with sessions := (s.sessions.get (o.clock n) id).2 }, (s.sessions.get (o.clock n) id).1)
      match found with
      | none => pure none
      | some ent => do
        let keys ← read (·.db.credentials)
        let gone : ServerM (Option SessionEntry) :=
          call fun s => ({ s with sessions := s.sessions.delete id }, none)
        match keys.resolveAPIKey (o.io n) ent.credHash (unix (o.clock (n + 1))) with
        | .error _ => gone
        | .ok rec =>
          if rec.revoked = true ∨ rec.tenantID ≠ ent.principal.tenantID ∨ rec.kind = kindAgent
              ∨ credentialPermits rec.kind rec.scope scopeRead = false
              ∨ (credentialExpiryUnix rec.expiresAt > 0 ∧ ¬ o.clock (n + 2) < rec.expiresAt) then gone
          else
            pure (some { ent with principal := principalFromRecord rec, clientName := rec.clientName })

def permitted (p : Principal) (requiredScope : String) : ServerM Principal := do
  refuseIf (p.permits requiredScope = false) ⟨403, "insufficient credential scope"⟩
  pure p

def authPrincipal {β : Type} (r : Request β) (requiredScope : String) : ServerM Principal := do
  let hubMode ← read (·.hubMode)
  if hubMode = false then pure ⟨localTenantID, "", "", kindRead, scopeAll, zeroTime⟩
  else do
    refuseIf (r.apiKeyQuery ≠ "") ⟨401, "api_key query parameter is not accepted; send the key in the X-API-Key header or session cookie"⟩
    refuseIf (r.apiKey = "" ∧ r.cookie.isSome ∧ r.method ∈ ["POST", "PUT", "PATCH", "DELETE"]
      ∧ r.sameOrigin = false) ⟨403, "cross-site request rejected"⟩
    if r.apiKey = "" then do
      let session ← lookupSession o 0 r.cookie
      match session with
      | some ent => permitted ent.principal requiredScope
      | none => refuse ⟨401, "X-API-Key header or session cookie required"⟩
    else match r.cached with
      | some entry => do
        refuseIf (entry.valid = false) ⟨401, "invalid API key"⟩
        permitted entry.principal requiredScope
      | none => do
        let keys ← read (·.db.credentials)
        match keys.resolveAPIKey (o.io 0) (K.hashAPIKey r.apiKey) (unix (o.clock 0)) with
        | .error .apiKeyNotFound => refuse ⟨401, "invalid API key"⟩
        | .error _ => refuse ⟨503, "authentication temporarily unavailable"⟩
        | .ok rec => permitted (principalFromRecord rec) requiredScope

/-! ## Enrollment -/

structure EnrollBody where
  enrollCode : String
  serverID : String
  currentToken : String

/-- `^[A-Za-z0-9._-]{3,128}$`. -/
def serverIDRegex (id : String) : Bool :=
  let cs := id.toList
  3 ≤ cs.length && cs.length ≤ 128
    && cs.all fun c => ('A' ≤ c && c ≤ 'Z') || ('a' ≤ c && c ≤ 'z') || ('0' ≤ c && c ≤ '9')
      || c = '.' || c = '_' || c = '-'

/-- The request that `handleEnroll` makes to the store. -/
def enrollmentRequest (req : EnrollBody) (agentToken : String) : EnrollmentRequest :=
  let currentToken := trimmed req.currentToken
  { codeHash := K.hashEnrollCode (trimmed req.enrollCode)
    serverID := trimmed req.serverID
    currentTokenHash := if currentToken ≠ "" then K.hashAPIKey currentToken else ""
    operatorApproved := false
    token := agentToken
    tokenHash := K.hashAPIKey agentToken
    tokenPrefix := K.extractKeyPrefix agentToken }

def enrollmentRefusal : CredentialError → Refusal
  | .rotationRequiresProof => ⟨409, "replacement requires current_token or operator approval"⟩
  | .enrollmentConflict => ⟨409, "enrollment conflict; retry"⟩
  | .apiKeyNotFound => ⟨401, "enrollment failed"⟩
  | _ => ⟨500, "internal server error"⟩

/-- `insecure` is the override for tests, `WMONITOR_ALLOW_INSECURE_ENROLL`. -/
def handleEnroll (insecure : Bool) (r : Request EnrollBody) : ServerM Issued := do
  refuseIf (r.method ≠ "POST") ⟨405, "method not allowed"⟩
  refuseIf (insecure = false ∧ r.https = false) ⟨426, "enrollment requires HTTPS"⟩
  refuseIf (r.limited = true) ⟨429, "rate limit exceeded"⟩
  let req ← require ⟨400, "invalid enrollment payload"⟩ r.body
  let serverID := trimmed req.serverID
  refuseIf (trimmed req.enrollCode = "" ∨ serverID = "") ⟨400, "enroll_code and server_id are required"⟩
  refuseIf (serverIDRegex serverID = false) ⟨400, "invalid server_id format"⟩
  needKeys ⟨503, "enrollment service unavailable"⟩
  let agentToken ← random o 0 ⟨500, "internal server error"⟩ (generateToken kindAgent)
  let result ← credentialCall fun db =>
    db.completeEnrollment (o.io 0) (enrollmentRequest K req agentToken) (unix (o.clock 0))
  match result with
  | .error e => refuse (enrollmentRefusal e)
  | .ok result => do
    audited o 1 ⟨zeroTime, result.tenantID, kindEnroll, "wme_", "enroll.completed", "agent", serverID⟩
      (if result.recovered then pure ()
      else do
        let _ ← credentialCall fun db =>
          db.revokeAgent (o.io 2) result.tenantID serverID (unix (o.clock 2)))
    pure (.agent result.token result.tenantID serverID)

/-! ## Enrollment codes -/

/-- `max_uses` and `ttl_hours` are 64 bit integers. -/
structure EnrollCodeBody where
  clientName : String
  tenantID : String
  maxUses : ℤ
  ttlHours : ℤ

def EnrollCodeBody.uses (req : EnrollCodeBody) : ℤ := if req.maxUses ≤ 0 then 25 else req.maxUses

def EnrollCodeBody.hours (req : EnrollCodeBody) : ℤ := if req.ttlHours ≤ 0 then 336 else req.ttlHours

/-- `time.Duration(ttlHours) * time.Hour`. -/
def EnrollCodeBody.lifetime (req : EnrollCodeBody) : ℤ := wrapInt64 (req.hours * hour)

/-- The tenant named in the request, or else that of the display name, if it has one. -/
def namedTenant (req : EnrollCodeBody) : ServerM String := do
  if req.tenantID ≠ "" then pure (trimmed req.tenantID)
  else do
    let keys ← read (·.db.credentials)
    match keys.listAPIKeys (o.io 4) with
    | .error _ => refuse ⟨500, "failed to list credentials"⟩
    | .ok allKeys =>
      match K.uniqueTenantForClientName allKeys (trimmed req.clientName) with
      | .error _ => refuse ⟨409, "client_name is ambiguous; pass tenant_id"⟩
      | .ok id => pure id

def enrollCodeTenant (req : EnrollCodeBody) : ServerM String := do
  let tenantID ← namedTenant K o req
  if tenantID = "" then random o 0 ⟨500, "failed to generate tenant ID"⟩ newTenantID
  else pure tenantID

/-- The code as it is stored. -/
def enrollCodeRecord (req : EnrollCodeBody) (tenantID code : String) : APIKeyRecord where
  id := 0
  tenantID := tenantID
  clientName := trimmed req.clientName
  keyHash := K.hashEnrollCode code
  keyPrefix := "wme_"
  kind := kindEnroll
  scope := scopeEnroll
  expiresAt := o.clock 4 + req.lifetime
  maxUses := req.uses
  uses := 0
  serverID := ""
  issuedBy := "admin"
  createdAt := o.clock 5
  lastSeenAt := zeroTime
  revoked := false

def handleAdminEnrollCodes (r : Request EnrollCodeBody) : ServerM Issued := do
  refuseIf (r.method ≠ "POST") ⟨405, "method not allowed"⟩
  let principal ← authPrincipal K o r scopeAdmin
  needKeys ⟨503, "admin store unavailable"⟩
  let req ← require ⟨400, "invalid request body"⟩ r.body
  refuseIf (trimmed req.clientName = "") ⟨400, "client_name is required"⟩
  let tenantID ← enrollCodeTenant K o req
  let code ← random o 1 ⟨500, "failed to generate enroll code"⟩ generateEnrollCode
  let stored ← credentialCall fun db =>
    db.upsertAPIKey (o.io 5) (enrollCodeRecord K o req tenantID code) (unix (o.clock 6))
  match stored with
  | .error _ => refuse ⟨500, "failed to save enroll code"⟩
  | .ok () => do
    let actor ← actorPrefix o 7 principal.kind principal.credentialID
    audited o 8 ⟨zeroTime, tenantID, principal.kind, actor, "enroll.code_issued", "client",
      trimmed req.clientName⟩ (revokeUnauditedHash o 9 (K.hashEnrollCode code))
    pure (.code code (trimmed req.clientName) tenantID (unix (o.clock 4 + req.lifetime)) req.uses)

/-! ## Clients -/

structure ClientBody where
  clientName : String

def clientRecord (clientName tenantID readToken : String) : APIKeyRecord where
  id := 0
  tenantID := tenantID
  clientName := clientName
  keyHash := K.hashAPIKey readToken
  keyPrefix := K.extractKeyPrefix readToken
  kind := kindRead
  scope := scopeRead
  expiresAt := zeroTime
  maxUses := 0
  uses := 0
  serverID := ""
  issuedBy := "admin_api"
  createdAt := o.clock 4
  lastSeenAt := zeroTime
  revoked := false

/-- The `POST` of `handleAdminClients`. -/
def handleAdminClients (r : Request ClientBody) : ServerM Issued := do
  let principal ← authPrincipal K o { r with method := "POST" } scopeAdmin
  needKeys ⟨503, "admin store unavailable"⟩
  let req ← require ⟨400, "invalid request body"⟩ r.body
  let clientName := trimmed req.clientName
  refuseIf (clientName = "") ⟨400, "client_name is required"⟩
  let keys ← read (·.db.credentials)
  match keys.listAPIKeys (o.io 4) with
  | .error _ => refuse ⟨500, "failed to list clients"⟩
  | .ok existing => do
    refuseIf ((K.uniqueTenantForClientName existing clientName).isOk = false)
      ⟨409, "client_name is ambiguous"⟩
    refuseIf (existing.any fun k => K.equalFold k.clientName clientName)
      ⟨409, "client_name already exists"⟩
    let readToken ← random o 0 ⟨500, "failed to generate read token"⟩ (generateToken kindRead)
    let tenantID ← random o 1 ⟨500, "failed to generate tenant ID"⟩ newTenantID
    let stored ← credentialCall fun db =>
      db.upsertAPIKey (o.io 5) (clientRecord K o clientName tenantID readToken) (unix (o.clock 6))
    match stored with
    | .error _ => refuse ⟨500, "failed to save client"⟩
    | .ok () => do
      let actor ← actorPrefix o 7 principal.kind principal.credentialID
      audited o 8 ⟨zeroTime, tenantID, principal.kind, actor, "client.created", "client", clientName⟩
        (revokeUnauditedHash o 9 (K.hashAPIKey readToken))
      pure (.client clientName tenantID readToken)

/-! ## Rotation -/

structure RotateBody where
  serverID : String
  tenantID : String

def rotationRefusal : CredentialError → Refusal
  | .apiKeyNotFound => ⟨404, "no active agent for that identity"⟩
  | .enrollmentConflict => ⟨409, "enrollment conflict; retry"⟩
  | _ => ⟨500, "failed to rotate agent"⟩

def handleAdminAgentRotate (r : Request RotateBody) : ServerM Issued := do
  refuseIf (r.method ≠ "POST") ⟨405, "method not allowed"⟩
  let principal ← authPrincipal K o r scopeAdmin
  needKeys ⟨503, "admin store unavailable"⟩
  let req ← require ⟨400, "invalid request body"⟩ r.body
  let serverID := trimmed req.serverID
  refuseIf (serverID = "") ⟨400, "server_id is required"⟩
  let tenantID := AuthState.revokeTenant principal req.tenantID
  refuseIf (tenantID = "") ⟨400, "tenant_id is required"⟩
  let token ← random o 0 ⟨500, "failed to generate token"⟩ (generateToken kindAgent)
  let result ← credentialCall fun db =>
    db.replaceAgent (o.io 4) tenantID serverID token (K.hashAPIKey token) (K.extractKeyPrefix token)
      (unix (o.clock 4))
  match result with
  | .error e => refuse (rotationRefusal e)
  | .ok result => do
    let actor ← actorPrefix o 7 principal.kind principal.credentialID
    audited o 8 ⟨zeroTime, result.tenantID, principal.kind, actor, "agent.rotated", "agent",
      result.serverID⟩ (revokeUnauditedHash o 9 (K.hashAPIKey token))
    pure (.agent result.token result.tenantID result.serverID)

/-! ## Sessions -/

structure SessionBody where
  readToken : String
  /-- Nothing but white space follows the object. -/
  alone : Bool

/-- The expiry of a session: that of its credential, if it comes first. -/
def sessionExpiry (now credExpiry : ℤ) : ℤ :=
  if credentialExpiryUnix credExpiry > 0 ∧ credExpiry < now + sessionTTL then credExpiry
  else now + sessionTTL

/-- `int(time.Until(expires).Seconds())`, at least 1. -/
def cookieAge (expires now : ℤ) : ℤ := max 1 (timeSub expires now / second)

/-- The session of the cookie that came with the request is closed. -/
def replaceSession (cookie : Option String) : ServerM Unit :=
  match cookie with
  | none => pure ()
  | some old => call fun s => ({ s with sessions := s.sessions.delete old }, ())

/-- The `POST` of `handleSession`. -/
def handleSession (r : Request SessionBody) : ServerM Issued := do
  refuseIf (r.sameOrigin = false) ⟨403, "cross-site request rejected"⟩
  refuseIf (r.limited = true) ⟨429, "too many login attempts"⟩
  refuseIf (r.https = false ∧ r.loopback = false) ⟨403, "HTTPS is required for browser login"⟩
  let req ← require ⟨400, "invalid login request"⟩ r.body
  refuseIf (req.alone = false) ⟨400, "exactly one JSON object is required"⟩
  refuseIf (req.readToken = "" ∨ len req.readToken > 1024) ⟨400, "read_token is required"⟩
  needKeys ⟨503, "authentication unavailable"⟩
  let hash := K.hashAPIKey req.readToken
  let keys ← read (·.db.credentials)
  match keys.resolveAPIKey (o.io 0) hash (unix (o.clock 0)) with
  | .error _ => refuse ⟨401, "invalid read token"⟩
  | .ok rec => do
    refuseIf (rec.revoked = true
        ∨ (credentialExpiryUnix rec.expiresAt > 0 ∧ ¬ o.clock 1 < rec.expiresAt))
      ⟨401, "invalid read token"⟩
    refuseIf (credentialPermits rec.kind rec.scope scopeRead = false ∨ rec.kind = kindAgent)
      ⟨403, "token lacks browser read scope"⟩
    let id ← random o 0 ⟨500, "failed to create session"⟩ fun b => sessionIDPrefix ++ hexEncode b
    let expires := sessionExpiry (o.clock 2) rec.expiresAt
    let ent : SessionEntry := ⟨hash, principalFromRecord rec, rec.clientName, expires⟩
    let stored ← call fun s =>
      let (ok, sessions) := s.sessions.put (o.order s.sessions) (o.clock 3) id ent
      ({ s with sessions := sessions }, ok)
    refuseIf (stored = false) ⟨503, "browser session capacity reached"⟩
    replaceSession r.cookie
    audited o 5 ⟨zeroTime, rec.tenantID, rec.kind, rec.keyPrefix, "session.login", "session", "browser"⟩
      (call fun s => ({ s with sessions := s.sessions.delete id }, ()))
    pure (.session id (cookieAge expires (o.clock 4)) rec.clientName rec.tenantID)

/-! ## All of them -/

inductive Issuance
  | enroll (insecure : Bool) (r : Request EnrollBody)
  | enrollCode (r : Request EnrollCodeBody)
  | client (r : Request ClientBody)
  | rotate (r : Request RotateBody)
  | session (r : Request SessionBody)

def serve : Issuance → ServerM Issued
  | .enroll insecure r => handleEnroll K o insecure r
  | .enrollCode r => handleAdminEnrollCodes K o r
  | .client r => handleAdminClients K o r
  | .rotate r => handleAdminAgentRotate K o r
  | .session r => handleSession K o r

end Server

end WMonitor
