import WMonitor.Alerting
import WMonitor.Issuance
import WMonitor.ReadPage

/-!
# The Hub's API

`Handler` and the handlers of `server/server.go`, `server/alerts.go`, `server/audit.go`,
`server/session.go` and `server/enroll.go` that show a caller data, take data in or revoke, on one
instance of the Hub that serves any number of requests at a time. A request is a program: each of its
steps is one call of the store or one section under a mutex, at a time that the clock shows; the clock
does not go back. What other instances and the requests that issue credentials do to the store may be
anything here.

What a handler reads and changes for its caller goes through an `Access`; that of the Hub is
`Access.full`, which has no limits.
-/

namespace WMonitor

open RangeMap

/-! ## The instance -/

structure Hub where
  db : Database
  /-- What the evaluator has, firing and in its history. -/
  active : List Alert := []
  history : List Alert := []
  epochInterval : ℤ
  authEpoch : ℤ := 0
  epochRefreshed : Option ℤ := none
  cache : List (String × AuthCacheEntry) := []
  sessions : SessionStore := newSessionStore
  /-- The last reading of the clock. -/
  clock : ℤ := 0

/-- What a step cannot influence: the clock, the errors of the credential store and of the other tables,
the limiters, random bytes, the order in which the sessions are read, and the state of the ingestion. -/
structure Moment where
  now : ℤ
  io : Driver
  fault : Fault
  limited : Bool
  rand : Fin 32 → UInt8
  order : SessionStore → List (Entry String SessionEntry)
  available : Bool
  pressure : Option Bool
  policy : IngestPolicy

/-- A request, with the query parameters that the handlers read. -/
structure APIRequest where
  method : String
  https : Bool
  loopback : Bool
  sameOrigin : Bool
  apiKeyQuery : String
  apiKey : String
  cookie : Option String
  range : String
  serverID : String
  tenantID : String
  limit : String
  cursor : String
  deriving DecidableEq

structure AgentListItem where
  serverID : String
  clientName : String
  keyPrefix : String
  createdAt : ℤ
  lastSeenAt : ℤ
  revoked : Bool
  deriving DecidableEq

structure ClientInfo where
  clientName : String
  tenantID : String
  kind : String
  keyPrefix : String
  revoked : Bool
  deriving DecidableEq

structure ExpectedAgent where
  serverID : String
  lastSeenAt : ℤ
  revoked : Bool
  deriving DecidableEq

inductive HubAnswer
  | metrics (page : Page MetricRow)
  | processes (page : Page ProcessRow)
  | servers (servers : List String) (limit : ℤ) (complete : Bool) (nextCursor : String)
  | csv (page : Page MetricRow)
  | alerts (active history : List Alert)
  | agents (agents : List AgentListItem)
  | revoked (serverID : String) (revoked : ℕ)
  | clients (clients : List ClientInfo)
  | audit (events : List AuditEvent) (complete : Bool)
  | expected (tenantID : String) (agents : List ExpectedAgent)
  | ingested (response : IngestResponse)
  | session (clientName tenantID : String)
  | loggedIn (id : String) (maxAge : ℤ) (clientName tenantID : String)
  | loggedOut
  deriving DecidableEq

abbrev HubM (α : Type) : Type 1 := Prog Hub Moment Refusal α

/-! ## What is shown -/

/-- All that the handlers read for a caller. -/
structure View where
  db : Database
  active : List Alert
  history : List Alert

/-- What a handler is shown for its caller, and what is kept of a change that it makes. -/
structure Access where
  look : Principal → View → View
  keep : Principal → Database → Database → Database

/-- The Hub shows everything to its handlers and keeps all that they change. -/
def Access.full : Access := ⟨fun _ v => v, fun _ _ db => db⟩

def Hub.view (s : Hub) : View := ⟨s.db, s.active, s.history⟩

/-! ## Listings of the store -/

/-- `ORDER BY last_seen_at DESC, created_at DESC`; rows that tie stay in the order of the table. -/
def APIKey.SeenBefore (a b : APIKey) : Prop :=
  b.lastSeenAt < a.lastSeenAt ∨ (a.lastSeenAt = b.lastSeenAt ∧ b.createdAt ≤ a.createdAt)

instance : DecidableRel APIKey.SeenBefore := fun _ _ =>
  inferInstanceAs (Decidable (_ < _ ∨ _ = _ ∧ _ ≤ _))

/-- `ListAgents`: those of a tenant, or of all when it is empty. -/
def CredentialDB.listAgents (tenantID : String) (db : CredentialDB) : List APIKeyRecord :=
  ((db.apiKeys.filter fun k => k.kind = kindAgent && (tenantID = "" || k.tenantID = tenantID)).insertionSort
    APIKey.SeenBefore).map scanAPIKey

def defaultServerLimit : ℤ := 1000

/-- `parseServerPage`: the limit and the server to go on after. -/
def parseServerPage (limit cursor : String) : Except String (ℤ × String) :=
  let raw := trimSpace limit.toList
  let limit : Option ℤ := if raw = [] then some defaultServerLimit else atoi raw
  match limit with
  | none => .error "limit must be 1..1000"
  | some n =>
    if n < 1 ∨ n > defaultServerLimit then .error "limit must be 1..1000"
    else
      let after := trimmed cursor
      if after.toList.any [' ', '\t', '\r', '\n'].contains then .error "invalid server cursor"
      else .ok (n, after)

def exportPages : PageSource MetricRow := { metricPages with failure := "export unavailable" }

/-- `filterByTenant`. -/
def filterByTenant (alerts : List Alert) (tenantID : String) : List Alert :=
  if tenantID = "" then [] else alerts.filter (·.tenantID = tenantID)

/-- The response to a page that was read or not. -/
def pageReply {α : Type} : Except PageError (Page α) → Except Refusal (Page α)
  | .ok page => .ok page
  | .error (.badRequest text) => .error ⟨400, text⟩
  | .error (.unavailable text) => .error ⟨503, text⟩

namespace Hub

variable (K : KeyTexts) (W : Wire) (A : Access)

/-! ## Steps -/

def tick (s : Hub) (now : ℤ) : Hub := { s with clock := now }

/-- A step at the time the clock shows. -/
def step {α : Type} (f : Hub → Moment → Except Refusal α × Hub) : HubM α :=
  .act fun s c => if c.now < s.clock then none else some ((f s c).1, (f s c).2.tick c.now)

def clockNow : HubM ℤ := step fun s c => (.ok c.now, s)

/-- A limiter, with the text of its refusal. -/
def allow (text : String) : HubM Unit :=
  step fun s c => (if c.limited then .error ⟨429, text⟩ else .ok (), s)

def enforceRate : HubM Unit := allow "rate limit exceeded"

/-- One query on behalf of a caller. -/
def query {α : Type} (p : Principal) (failed : Refusal) (f : View → ℤ → Except Refusal α) : HubM α :=
  step fun s c => (if c.fault ≠ .none then .error failed else f (A.look p s.view) c.now, s)

/-! ## The epoch and the cache of keys -/

/-- `AuthEpoch`, if the store answers. -/
def loadEpoch : HubM (Option ℤ) :=
  step fun s c =>
    (.ok (match c.io.exec 0 with
      | .ok () => some s.db.credentials.authEpoch.epoch
      | .error _ => none), s)

def syncAuthEpoch : HubM Unit := do
  let epoch ← loadEpoch
  match epoch with
  | none => pure ()
  | some epoch => step fun s c => (.ok (), { s with authEpoch := epoch, epochRefreshed := some c.now })

def currentAuthEpoch : HubM ℤ := do
  let copy ← .read fun s => (s.epochInterval, s.epochRefreshed, s.authEpoch)
  let now ← clockNow
  if AuthState.stale copy.1 copy.2.1 now then do
    syncAuthEpoch
    .read (·.authEpoch)
  else pure copy.2.2

def entryOf (s : Hub) (hash : String) : Option AuthCacheEntry :=
  (s.cache.find? fun x => x.1 = hash).map (·.2)

def invalidate (hash : String) : HubM Unit :=
  .modify fun s => { s with cache := s.cache.filter fun x => x.1 ≠ hash }

/-- The entry, if it is still good at the epoch. -/
def get (hash : String) (epoch : ℤ) : HubM (Option AuthCacheEntry) := do
  let found ← .read (·.entryOf hash)
  let now ← clockNow
  match found with
  | none => pure none
  | some entry =>
    let expiry := entry.principal.expiresAt
    if now > entry.expires then pure none
    else if entry.epoch < epoch then do
      invalidate hash
      pure none
    else if credentialExpiryUnix expiry > 0 ∧ now ≥ expiry then do
      invalidate hash
      pure none
    else pure (some entry)

/-- A full cache is emptied first. -/
def put (hash : String) (entry : AuthCacheEntry) : HubM Unit :=
  .modify fun s =>
    let entries := if s.cache.length > 10000 then [] else s.cache.filter fun x => x.1 ≠ hash
    { s with cache := entries ++ [(hash, entry)] }

def invalidateAll : List String → HubM Unit
  | [] => pure ()
  | hash :: hashes => do
    invalidate hash
    invalidateAll hashes

def invalidateHashes (hashes : List String) : HubM Unit := do
  invalidateAll hashes
  syncAuthEpoch

/-! ## Sessions -/

def resolveAPIKey (hash : String) : HubM (Except CredentialError APIKeyRecord) :=
  step fun s c => (.ok (s.db.credentials.resolveAPIKey c.io hash (unix c.now)), s)

def getSession (id : String) : HubM (Option SessionEntry) :=
  step fun s c => (.ok (s.sessions.get c.now id).1, { s with sessions := (s.sessions.get c.now id).2 })

def deleteSession (id : String) : HubM Unit :=
  .modify fun s => { s with sessions := s.sessions.delete id }

/-- A session whose credential is not accepted any more is closed. -/
def closeSession (id : String) : HubM (Option SessionEntry) := do
  deleteSession id
  pure none

/-- `lookupSession` from a session that was found on. -/
def checkSession (id : String) (ent : SessionEntry) : HubM (Option SessionEntry) := do
  let resolved ← resolveAPIKey ent.credHash
  let now ← clockNow
  match resolved with
  | .error _ => closeSession id
  | .ok rec =>
    if rec.revoked = true ∨ rec.tenantID ≠ ent.principal.tenantID ∨ rec.kind = kindAgent
        ∨ credentialPermits rec.kind rec.scope scopeRead = false
        ∨ (credentialExpiryUnix rec.expiresAt > 0 ∧ ¬ now < rec.expiresAt) then closeSession id
    else pure (some { ent with principal := principalFromRecord rec, clientName := rec.clientName })

def lookupSession (cookie : Option String) : HubM (Option SessionEntry) :=
  match cookie with
  | none => pure none
  | some id =>
    if len id ≠ len sessionIDPrefix + 64 ∨ ¬ sessionIDPrefix.toList.isPrefixOf id.toList then pure none
    else do
      let found ← getSession id
      match found with
      | none => pure none
      | some ent => checkSession id ent

/-! ## Authentication -/

def permitted (p : Principal) (requiredScope : String) : HubM Principal := do
  .failIf (p.permits requiredScope = false) ⟨403, "insufficient credential scope"⟩
  pure p

/-- `authPrincipal` for a key that the cache does not have. -/
def resolveKey (hash : String) (epoch : ℤ) (requiredScope : String) : HubM Principal := do
  let resolved ← resolveAPIKey hash
  match resolved with
  | .error .apiKeyNotFound => do
    let now ← clockNow
    put hash ⟨.zero, false, now + authNegativeTTL, epoch⟩
    .fail ⟨401, "invalid API key"⟩
  | .error _ => .fail ⟨503, "authentication temporarily unavailable"⟩
  | .ok rec => do
    let now ← clockNow
    put hash ⟨principalFromRecord rec, true, cacheDeadline now rec.expiresAt, epoch⟩
    permitted (principalFromRecord rec) requiredScope

/-- `authPrincipal` for a key that was presented. -/
def keyPrincipal (hash requiredScope : String) : HubM Principal := do
  let epoch ← currentAuthEpoch
  let cached ← get hash epoch
  match cached with
  | some entry => do
    .failIf (entry.valid = false) ⟨401, "invalid API key"⟩
    permitted entry.principal requiredScope
  | none => resolveKey hash epoch requiredScope

/-- `authPrincipal` for a browser. -/
def sessionPrincipal (cookie : Option String) (requiredScope : String) : HubM Principal := do
  let session ← lookupSession cookie
  match session with
  | some ent => permitted ent.principal requiredScope
  | none => .fail ⟨401, "X-API-Key header or session cookie required"⟩

def authPrincipal (r : APIRequest) (requiredScope : String) : HubM Principal := do
  .failIf (r.apiKeyQuery ≠ "") ⟨401, "api_key query parameter is not accepted; send the key in the X-API-Key header or session cookie"⟩
  .failIf (r.apiKey = "" ∧ r.cookie.isSome ∧ r.method ∈ ["POST", "PUT", "PATCH", "DELETE"]
    ∧ r.sameOrigin = false) ⟨403, "cross-site request rejected"⟩
  if r.apiKey = "" then sessionPrincipal r.cookie requiredScope
  else keyPrincipal (K.hashAPIKey r.apiKey) requiredScope

/-! ## Reads -/

/-- The parameters of a page, or the text of what is wrong with them. -/
def parsed {α : Type} (page : Except String α) : HubM α :=
  match page with
  | .error text => .fail ⟨400, text⟩
  | .ok page => pure page

/-- One page of a source for the tenant of the caller. -/
def readPage {α : Type} (S : PageSource α) (p : Principal) (r : APIRequest) : HubM (Page α) := do
  let _ ← parsed (parseReadPage r.limit r.cursor)
  let now ← clockNow
  query A p ⟨503, S.failure⟩ fun v readAt =>
    pageReply (S.page (rangeScope r.range now readAt p.tenantID r.serverID) r.limit r.cursor v.db.hub)

/-- How the handlers that read for a tenant begin. -/
def reading (r : APIRequest) (rest : Principal → HubM HubAnswer) : HubM HubAnswer := do
  .failIf (r.method ≠ "GET" ∧ r.method ≠ "HEAD") ⟨405, "method not allowed"⟩
  let p ← authPrincipal K r scopeRead
  enforceRate
  rest p

def handleMetrics (r : APIRequest) : HubM HubAnswer :=
  reading K r fun p => do
    let page ← readPage A metricPages p r
    pure (.metrics page)

def handleProcesses (r : APIRequest) : HubM HubAnswer :=
  reading K r fun p => do
    let page ← readPage A processPages p r
    pure (.processes page)

/-- The rows of the export; `export.WriteCSV` writes one line for each. -/
def handleExportCSV (r : APIRequest) : HubM HubAnswer :=
  reading K r fun p => do
    .failIf (requireTenant p.tenantID = false) ⟨400, "tenant required"⟩
    let page ← readPage A exportPages p r
    pure (.csv page)

/-- The answer with a page of servers. -/
def serversReply (limit : ℤ) (servers : List String) : HubAnswer :=
  let complete : Bool := servers.length < limit
  .servers servers limit complete (if complete then "" else servers.getLast?.getD "")

def handleServers (r : APIRequest) : HubM HubAnswer :=
  reading K r fun p => do
    let page ← parsed (parseServerPage r.limit r.cursor)
    query A p ⟨503, "server query unavailable"⟩ fun v _ =>
      match v.db.hub.queryServersPage p.tenantID page.1 page.2 with
      | .error _ => .error ⟨503, "server query unavailable"⟩
      | .ok servers => .ok (serversReply page.1 servers)

def handleAlerts (r : APIRequest) : HubM HubAnswer := do
  let p ← authPrincipal K r scopeRead
  enforceRate
  let active ← .read fun s => filterByTenant (A.look p s.view).active p.tenantID
  let history ← .read fun s => filterByTenant (A.look p s.view).history p.tenantID
  pure (.alerts active history)

/-! ## Administration -/

def actorPrefix (kind credHash : String) : HubM String :=
  if credHash = "" then pure kind
  else do
    let resolved ← resolveAPIKey credHash
    match resolved with
    | .error _ => pure kind
    | .ok rec => if rec.keyPrefix = "" then pure kind else pure rec.keyPrefix

def recordAudit (p : Principal) (ev : AuditEvent) : HubM Unit :=
  step fun s c =>
    match c.fault with
    | .before => (.error ⟨503, "audit unavailable"⟩, s)
    | .none =>
      (if (s.db.appendAudit ev c.now).2.isOk then .ok () else .error ⟨503, "audit unavailable"⟩,
        { s with db := A.keep p s.db (s.db.appendAudit ev c.now).1 })
    | .after => (.error ⟨503, "audit unavailable"⟩, { s with db := A.keep p s.db (s.db.appendAudit ev c.now).1 })

/-- The tenant whose agents are listed, empty for all of them. -/
def listTenant (p : Principal) (tenantQuery : String) : String :=
  if p.kind = kindAdmin ∧ p.permissions = scopeAdmin then trimmed tenantQuery else p.tenantID

def agentItem (a : APIKeyRecord) : AgentListItem :=
  ⟨a.serverID, a.clientName, a.keyPrefix, unix a.createdAt, unix a.lastSeenAt, a.revoked⟩

def listAgents (p : Principal) (r : APIRequest) : HubM HubAnswer :=
  query A p ⟨500, "failed to list agents"⟩ fun v _ =>
    .ok (.agents ((v.db.credentials.listAgents (listTenant p r.tenantID)).map agentItem))

/-- `ActiveAgentHashes`, whose error is ignored. -/
def activeAgentHashes (tenant server : String) : HubM (List String) :=
  step fun s c =>
    (.ok (match c.io.exec 0 with
      | .ok () => s.db.credentials.activeAgentHashes tenant server
      | .error _ => []), s)

/-- The update of the rows and, if there are any, that of the epoch: two statements. -/
def revokeAgent (p : Principal) (tenant server : String) : HubM ℕ := do
  let now ← clockNow
  let n ← step fun s c =>
    match c.io.exec 0 with
    | .error _ => (.error ⟨500, "failed to revoke agent"⟩, s)
    | .ok () =>
      (.ok (s.db.credentials.apiKeys.filter fun k =>
          AuthState.agentOf tenant server k && k.revokedAt = 0).length,
        { s with db := A.keep p s.db { s.db with
            credentials := s.db.credentials.revokeWhere (AuthState.agentOf tenant server) (unix now) } })
  if n > 0 then
    step fun s c =>
      match c.io.exec 1 with
      | .error _ => (.error ⟨500, "failed to revoke agent"⟩, s)
      | .ok () => (.ok n, { s with db := A.keep p s.db { s.db with
          credentials := s.db.credentials.bumpAuthEpoch (unix now) } })
  else pure n

/-- The `DELETE` of `handleAdminAgents`. -/
def revokeAgents (p : Principal) (r : APIRequest) : HubM HubAnswer := do
  .failIf (p.permits scopeAdmin = false) ⟨403, "insufficient credential scope"⟩
  let server := trimmed r.serverID
  .failIf (server = "") ⟨400, "server_id is required"⟩
  let tenant := AuthState.revokeTenant p r.tenantID
  let hashes ← activeAgentHashes tenant server
  let n ← revokeAgent A p tenant server
  invalidateHashes hashes
  let actor ← actorPrefix p.kind p.credentialID
  recordAudit A p ⟨zeroTime, tenant, p.kind, actor, "agent.revoked", "agent", server⟩
  pure (.revoked server n)

def handleAdminAgents (r : APIRequest) : HubM HubAnswer := do
  let p ← authPrincipal K r scopeRead
  if r.method = "GET" then listAgents A p r
  else if r.method = "DELETE" then revokeAgents A p r
  else .fail ⟨405, "method not allowed"⟩

def clientInfo (k : APIKeyRecord) : ClientInfo :=
  ⟨k.clientName, k.tenantID, k.kind, k.keyPrefix, k.revoked⟩

/-- The `GET` of `handleAdminClients`. -/
def handleAdminClients (r : APIRequest) : HubM HubAnswer := do
  let p ← authPrincipal K { r with method := "GET" } scopeAdmin
  query A p ⟨500, "failed to list clients"⟩ fun v _ =>
    match v.db.credentials.listAPIKeys fun _ => none with
    | .error _ => .error ⟨500, "failed to list clients"⟩
    | .ok keys =>
      .ok (.clients ((keys.filter fun k => k.kind = kindRead || k.kind = "legacy").map clientInfo))

def handleAdminAudit (r : APIRequest) : HubM HubAnswer := do
  .failIf (r.method ≠ "GET") ⟨405, "method not allowed"⟩
  let p ← authPrincipal K r scopeAdmin
  .failIf (requireTenant (trimmed r.tenantID) = false) ⟨400, "tenant_id is required"⟩
  query A p ⟨500, "audit query failed"⟩ fun v _ =>
    match v.db.listAudit (trimmed r.tenantID) 256 with
    | .error _ => .error ⟨500, "audit query failed"⟩
    | .ok events => .ok (.audit events (events.length < 256))

def expectedAgent (a : APIKeyRecord) : ExpectedAgent := ⟨a.serverID, unix a.lastSeenAt, a.revoked⟩

def handleExpectedAgents (r : APIRequest) : HubM HubAnswer := do
  .failIf (r.method ≠ "GET") ⟨405, "method not allowed"⟩
  let p ← authPrincipal K r scopeAdmin
  .failIf (requireTenant (trimmed r.tenantID) = false) ⟨400, "tenant_id is required"⟩
  query A p ⟨500, "agent inventory unavailable"⟩ fun v _ =>
    .ok (.expected (trimmed r.tenantID)
      ((v.db.credentials.listAgents (trimmed r.tenantID)).map expectedAgent))

/-! ## Ingestion -/

/-- How the request of `p` finds the ingestion: it was received at `now`, and its transaction is one
step. -/
def reception (p : Principal) (now : ℤ) (c : Moment) : Reception where
  auth := .ok p
  admitted := !c.limited
  available := c.available
  pressure := c.pressure
  policy := c.policy
  fault := c.fault
  receivedAt := now
  acceptedAt := c.now
  answeredAt := c.now

def receiveBatch (r : APIRequest) (req : IngestRequest) : HubM HubAnswer := do
  .failIf (r.method ≠ "POST") ⟨405, "method not allowed"⟩
  let p ← authPrincipal K r scopeIngest
  let now ← clockNow
  let req := { req with post := true }
  step fun s c =>
    (.ok (.ingested (WMonitor.receiveBatch W (reception p now c) req s.db.hub).2),
      { s with db := A.keep p s.db { s.db with
          hub := (WMonitor.receiveBatch W (reception p now c) req s.db.hub).1 } })

/-! ## Browser sessions -/

/-- The `GET` of `handleSession`. -/
def sessionInfo (r : APIRequest) : HubM HubAnswer := do
  let session ← lookupSession r.cookie
  match session with
  | none => .fail ⟨401, "no session"⟩
  | some ent => pure (.session ent.clientName ent.principal.tenantID)

/-- Ids are new. -/
def makeSessionID : HubM String :=
  .act fun s c =>
    let id := newSessionID c.rand
    if c.now < s.clock ∨ s.sessions.m.keys.contains id then none
    else some (if c.fault ≠ .none then .error ⟨500, "failed to create session"⟩ else .ok id, s.tick c.now)

def storeSession (id : String) (ent : SessionEntry) : HubM Unit :=
  step fun s c =>
    (if (s.sessions.put (c.order s.sessions) c.now id ent).1 then .ok ()
      else .error ⟨503, "browser session capacity reached"⟩,
    { s with sessions := (s.sessions.put (c.order s.sessions) c.now id ent).2 })

def replaceSession (cookie : Option String) : HubM Unit :=
  match cookie with
  | none => pure ()
  | some old => deleteSession old

/-- A login from the credential on. -/
def openSession (r : APIRequest) (token : String) (rec : APIKeyRecord) : HubM HubAnswer := do
  let id ← makeSessionID
  let now ← clockNow
  let expires := Server.sessionExpiry now rec.expiresAt
  storeSession id ⟨K.hashAPIKey token, principalFromRecord rec, rec.clientName, expires⟩
  replaceSession r.cookie
  let answered ← clockNow
  let audited ← (recordAudit A (principalFromRecord rec) ⟨zeroTime, rec.tenantID, rec.kind, rec.keyPrefix,
    "session.login", "session", "browser"⟩).attempt
  match audited with
  | .ok () => pure (.loggedIn id (Server.cookieAge expires answered) rec.clientName rec.tenantID)
  | .error e => do
    deleteSession id
    .fail e

/-- The `POST` of `handleSession`. -/
def login (r : APIRequest) (body : Option Server.SessionBody) : HubM HubAnswer := do
  .failIf (r.sameOrigin = false) ⟨403, "cross-site request rejected"⟩
  allow "too many login attempts"
  .failIf (r.https = false ∧ r.loopback = false) ⟨403, "HTTPS is required for browser login"⟩
  match body with
  | none => .fail ⟨400, "invalid login request"⟩
  | some req => do
    .failIf (req.alone = false) ⟨400, "exactly one JSON object is required"⟩
    .failIf (req.readToken = "" ∨ len req.readToken > 1024) ⟨400, "read_token is required"⟩
    let resolved ← resolveAPIKey (K.hashAPIKey req.readToken)
    let now ← clockNow
    match resolved with
    | .error _ => .fail ⟨401, "invalid read token"⟩
    | .ok rec => do
      .failIf (rec.revoked = true ∨ (credentialExpiryUnix rec.expiresAt > 0 ∧ ¬ now < rec.expiresAt))
        ⟨401, "invalid read token"⟩
      .failIf (credentialPermits rec.kind rec.scope scopeRead = false ∨ rec.kind = kindAgent)
        ⟨403, "token lacks browser read scope"⟩
      openSession K A r req.readToken rec

def auditLogout (found : Option SessionEntry) : HubM Unit :=
  match found with
  | none => pure ()
  | some ent => do
    let actor ← actorPrefix ent.principal.kind ent.credHash
    recordAudit A ent.principal ⟨zeroTime, ent.principal.tenantID, ent.principal.kind, actor,
      "session.logout", "session", "browser"⟩

/-- The `DELETE` of `handleSession`. -/
def logout (r : APIRequest) : HubM HubAnswer := do
  .failIf (r.sameOrigin = false) ⟨403, "cross-site request rejected"⟩
  match r.cookie with
  | none => pure .loggedOut
  | some id => do
    let found ← getSession id
    auditLogout A found
    deleteSession id
    pure .loggedOut

def handleSession (r : APIRequest) (body : Option Server.SessionBody) : HubM HubAnswer :=
  if r.method = "GET" then sessionInfo r
  else if r.method = "POST" then login K A r body
  else if r.method = "DELETE" then logout A r
  else .fail ⟨405, "method not allowed"⟩

end Hub

/-! ## The service -/

inductive HubCall
  | metrics (r : APIRequest)
  | processes (r : APIRequest)
  | servers (r : APIRequest)
  | csv (r : APIRequest)
  | alerts (r : APIRequest)
  | agents (r : APIRequest)
  | clients (r : APIRequest)
  | audit (r : APIRequest)
  | expected (r : APIRequest)
  | ingest (r : APIRequest) (req : IngestRequest)
  | session (r : APIRequest) (body : Option Server.SessionBody)

/-- What others do to the store, and the evaluation of the alerts. -/
inductive HubEvent
  | store (db : Database)
  | alerts (active history : List Alert)

namespace Hub

variable (K : KeyTexts) (W : Wire) (A : Access)

def serve : HubCall → HubM HubAnswer
  | .metrics r => handleMetrics K A r
  | .processes r => handleProcesses K A r
  | .servers r => handleServers K A r
  | .csv r => handleExportCSV K A r
  | .alerts r => handleAlerts K A r
  | .agents r => handleAdminAgents K A r
  | .clients r => handleAdminClients K A r
  | .audit r => handleAdminAudit K A r
  | .expected r => handleExpectedAgents K A r
  | .ingest r req => receiveBatch K W A r req
  | .session r body => handleSession K A r body

def event (s : Hub) : HubEvent → Hub
  | .store db => { s with db := db }
  | .alerts active history => { s with active := active, history := history }

/-- A request gets past the limiter that comes before authentication. A restart leaves the store. -/
def service : Service Hub Moment Refusal HubAnswer HubCall HubEvent where
  body call _ := do
    allow "request rate exceeded"
    serve K W A call
  env := event
  restart s := { s with
    authEpoch := 0, epochRefreshed := none, cache := [], sessions := newSessionStore }

end Hub

end WMonitor
