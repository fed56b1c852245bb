import WMonitor.Credentials
import WMonitor.Prog
import WMonitor.Time

/-!
# Authentication on one Hub instance

`server/auth.go`: a key is looked up in a cache and then in the store. A cached answer is good for an
epoch; every revocation raises the epoch in the store, and the instance keeps a copy of it that it
reloads from time to time. `authPrincipal` for a key that was presented, and the revocation handler of
`server/enroll.go`, are programs whose steps are single reads and writes of the store and single
sections under one of the two mutexes. The store does not fail here.

Beside the state stands its history: the values the copy has had, which of them were read after the
revocation raised the epoch, and which requests began when the revocation was over.
-/

namespace WMonitor

def kindAdmin : String := "admin"
def scopeRead : String := "read"
def scopeAdmin : String := "admin"
def scopeAll : String := "all"
def scopeEnroll : String := "enroll"

def authCacheTTL : ℤ := 60 * second
def authNegativeTTL : ℤ := 10 * second

structure Principal where
  tenantID : String
  agentID : String
  credentialID : String
  kind : String
  permissions : String
  expiresAt : ℤ
  deriving DecidableEq

def principalFromRecord (rec : APIKeyRecord) : Principal where
  tenantID := rec.tenantID
  agentID := rec.serverID
  credentialID := rec.keyHash
  kind := rec.kind
  permissions := rec.scope
  expiresAt := rec.expiresAt

def credentialPermits (kind granted required : String) : Bool :=
  if kind = kindEnroll ∨ granted = scopeEnroll then false
  else if required = scopeAdmin then kind = kindAdmin && granted = scopeAdmin
  else if granted = scopeAdmin ∧ kind = kindAdmin then true
  else if required = scopeRead then granted = scopeRead || granted = scopeAll
  else if required = scopeIngest then granted = scopeIngest || granted = scopeAll
  else granted = required

def Principal.permits (p : Principal) (required : String) : Bool :=
  credentialPermits p.kind p.permissions required

def credentialExpiryUnix (t : ℤ) : ℤ := if t = zeroTime then 0 else unix t

def cacheDeadline (now credExpiry : ℤ) : ℤ :=
  if credentialExpiryUnix credExpiry > 0 ∧ credExpiry < now + authCacheTTL then credExpiry
  else now + authCacheTTL

/-- `Principal{}`. -/
def Principal.zero : Principal := ⟨"", "", "", "", "", zeroTime⟩

structure AuthCacheEntry where
  principal : Principal
  valid : Bool
  expires : ℤ
  epoch : ℤ
  deriving DecidableEq

inductive AuthError
  | invalidAPIKey
  | insufficientScope
  | serverIDRequired
  deriving DecidableEq

/-- A copy of the epoch that was stored: its value, and whether it was read after the revocation
raised it. -/
structure EpochWrite where
  epoch : ℤ
  late : Bool
  deriving DecidableEq

structure AuthState where
  db : CredentialDB
  epochInterval : ℤ
  authEpoch : ℤ := 0
  epochRefreshed : Option ℤ := none
  cache : List (String × AuthCacheEntry) := []
  /-- History: every copy of the epoch that was stored, in order. -/
  writes : List EpochWrite := []
  /-- History: the call that revokes, whether it raised the epoch and whether it is over. -/
  revoker : Option ℕ := none
  raised : Bool := false
  finished : Bool := false
  /-- History: the requests that have begun, and whether the revocation was over then. -/
  begun : List (ℕ × Bool) := []
  deriving DecidableEq

/-- The steps get the clock. -/
abbrev AuthM (α : Type) : Type 1 := Prog AuthState ℤ AuthError α

namespace AuthState

def clock : AuthM ℤ := .act fun s now => some (.ok now, s)

/-! ## The epoch -/

def syncAuthEpoch : AuthM Unit := do
  let w ← .read fun s => EpochWrite.mk s.db.authEpoch.epoch s.raised
  .act fun s now => some (.ok (), { s with
    authEpoch := w.epoch, epochRefreshed := some now, writes := s.writes ++ [w] })

/-- Whether the copy is old enough to be reloaded. -/
def stale (interval : ℤ) (refreshed : Option ℤ) (now : ℤ) : Bool :=
  match refreshed with
  | none => true
  | some t => interval = 0 || timeSub now t ≥ interval

/-- The request `t` begins with this. -/
def currentAuthEpoch (t : ℕ) : AuthM ℤ := do
  let (interval, refreshed, cached) ← .act fun s _ =>
    some (.ok (s.epochInterval, s.epochRefreshed, s.authEpoch),
      { s with begun := s.begun ++ [(t, s.finished)] })
  let now ← clock
  if stale interval refreshed now then do
    syncAuthEpoch
    .read (·.authEpoch)
  else pure cached

/-! ## The cache -/

def entryOf (s : AuthState) (hash : String) : Option AuthCacheEntry :=
  (s.cache.find? fun x => x.1 = hash).map (·.2)

def invalidate (hash : String) : AuthM Unit :=
  .modify fun s => { s with cache := s.cache.filter fun x => x.1 ≠ hash }

/-- The entry, if it is still good at the epoch. -/
def get (hash : String) (epoch : ℤ) : AuthM (Option AuthCacheEntry) := do
  let found ← .read (·.entryOf hash)
  let now ← clock
  match found with
  | none => pure none
  | some entry =>
    let expiry := entry.principal.expiresAt
    if now > entry.expires then pure none
    else if entry.epoch < epoch then do
      invalidate hash
      pure none
    else if credentialExpiryUnix expiry > 0 ∧ now ≥ expiry then do
      invalidate hash
      pure none
    else pure (some entry)

/-- A full cache is emptied first. -/
def put (hash : String) (entry : AuthCacheEntry) : AuthM Unit :=
  .modify fun s =>
    let entries := if s.cache.length > 10000 then [] else s.cache.filter fun x => x.1 ≠ hash
    { s with cache := entries ++ [(hash, entry)] }

/-! ## Requests -/

def resolveAPIKey (hash : String) : AuthM (Except CredentialError APIKeyRecord) :=
  .act fun s now => some (.ok (s.db.resolveAPIKey (fun _ => none) hash (unix now)), s)

/-- `authPrincipal` from the hash of the presented key on. -/
def authPrincipal (t : ℕ) (hash requiredScope : String) : AuthM Principal := do
  let epoch ← currentAuthEpoch t
  let cached ← get hash epoch
  match cached with
  | some entry => do
    .failIf (entry.valid = false) .invalidAPIKey
    .failIf (entry.principal.permits requiredScope = false) .insufficientScope
    pure entry.principal
  | none => do
    let rec ← resolveAPIKey hash
    let now ← clock
    match rec with
    | .error _ => do
      put hash ⟨.zero, false, now + authNegativeTTL, epoch⟩
      .fail .invalidAPIKey
    | .ok rec => do
      let p := principalFromRecord rec
      put hash ⟨p, true, cacheDeadline now p.expiresAt, epoch⟩
      .failIf (p.permits requiredScope = false) .insufficientScope
      pure p

/-! ## The revocation handler -/

/-- The rows `RevokeAgent` revokes. -/
def agentOf (tenant server : String) (k : APIKey) : Bool :=
  k.tenantID = tenant && k.serverID = server && k.kind = kindAgent

/-- `ActiveAgentHashes`. There is one revocation: another one does not get past this. -/
def activeAgentHashes (t : ℕ) (tenant server : String) : AuthM (List String) :=
  .act fun s _ =>
    if s.revoker = none then
      some (.ok (s.db.activeAgentHashes tenant server), { s with revoker := some t })
    else none

/-- The update of the rows and, if there are any, that of the epoch: two statements. -/
def revokeAgent (tenant server : String) : AuthM ℕ := do
  let now ← clock
  let n ← .act fun s _ => some
    (.ok (s.db.apiKeys.filter fun k => agentOf tenant server k && k.revokedAt = 0).length,
      { s with db := s.db.revokeWhere (agentOf tenant server) (unix now) })
  if n > 0 then do
    .modify fun s => { s with db := s.db.bumpAuthEpoch (unix now), raised := true }
    pure n
  else pure n

def invalidateAll : List String → AuthM Unit
  | [] => pure ()
  | hash :: hashes => do
    invalidate hash
    invalidateAll hashes

def invalidateHashes (hashes : List String) : AuthM Unit := do
  invalidateAll hashes
  syncAuthEpoch

/-- The tenant that an administrator names, or else the caller's own. -/
def revokeTenant (p : Principal) (tenantQuery : String) : String :=
  let q := String.ofList (trimSpace tenantQuery.toList)
  if p.kind = kindAdmin ∧ q ≠ "" then q else p.tenantID

/-- The `DELETE` of `handleAdminAgents`. -/
def handleRevoke (t : ℕ) (hash tenantQuery serverQuery : String) : AuthM ℕ := do
  let p ← authPrincipal t hash scopeRead
  .failIf (p.permits scopeAdmin = false) .insufficientScope
  let server := String.ofList (trimSpace serverQuery.toList)
  .failIf (server = "") .serverIDRequired
  let tenant := revokeTenant p tenantQuery
  let hashes ← activeAgentHashes t tenant server
  let n ← revokeAgent tenant server
  invalidateHashes hashes
  .modify fun s => { s with finished := true }
  pure n

end AuthState

/-! ## The service -/

inductive AuthCall
  | request (hash requiredScope : String)
  | revoke (hash tenantQuery serverQuery : String)
  deriving DecidableEq

/-- Who a request was made by, or how many rows were revoked. -/
inductive AuthReply
  | principal (p : Principal)
  | revoked (n : ℕ)
  deriving DecidableEq

namespace AuthState

def serve : AuthCall → ℕ → AuthM AuthReply
  | .request hash scope, t => authPrincipal t hash scope >>= fun p => pure (.principal p)
  | .revoke hash tenant server, t => handleRevoke t hash tenant server >>= fun n => pure (.revoked n)

/-- A request that was authenticated also updates the use of its key, at any time after. Requests in
flight may be abandoned. -/
def service : Service AuthState ℤ AuthError AuthReply AuthCall (String × ℤ) where
  body := serve
  env s e := { s with db := (s.db.touchAPIKey (fun _ => none) e.1 e.2).1 }
  restart s := s

/-- A new instance. -/
def start (db : CredentialDB) (interval : ℤ) : AuthState := { db := db, epochInterval := interval }

end AuthState

end WMonitor
