import WMonitor.HubClient
import WMonitor.Issuance
import WMonitor.Prog

/-!
# The start of an agent

`makeProgram` of `runtime.go` for an agent: the identity of the machine (`resolveServerID` of
`config.go`), its credential (`agentCredentials`, `Enroll` of `agent/enroll.go`, `agent/credstore.go` and
`agent/credstore_unix.go`) and what the spool is bound to. The machine has two files, the identity and
the credential; any number of processes may start on it, at the same time or after another, and each may
end after any of its steps. Requests and replies get lost. The Hub is `Server`, at work for others too.

Paths are regular files here, and what is written stays written: symbolic links and power loss are left
out. A system call that fails for a reason of its own is a fault.
-/

namespace WMonitor

/-! ## The flag -/

def serverIDChar (c : Char) : Bool :=
  ('A' ≤ c && c ≤ 'Z') || ('a' ≤ c && c ≤ 'z') || ('0' ≤ c && c ≤ '9') || c = '_' || c = '.' || c = '-'

/-- `^[A-Za-z0-9_.-]{1,128}$`. -/
def validServerID (id : String) : Bool :=
  1 ≤ id.toList.length && id.toList.length ≤ 128 && id.toList.all serverIDChar

/-- `explicitServerID`: nothing, or what the flag `-server-id` accepted. -/
def ServerIDFlag : Type := { id : String // id = "" ∨ validServerID id = true }

/-- `persistentServerIDFlag.Set`. -/
def ServerIDFlag.set (raw : String) : Option ServerIDFlag :=
  if h : validServerID raw = true then some ⟨raw, .inr h⟩ else none

/-! ## The machine and the Hub -/

/-- What an enrollment that is answered 201 hands out. -/
structure Grant where
  token : String
  tenantID : String
  serverID : String
  deriving DecidableEq

structure Site where
  /-- The text of `agent_id`. -/
  agentID : Option (List Char) := none
  /-- `token.json`. -/
  token : Option (List UInt8) := none
  /-- The temporary files, each with the process that made it. -/
  temps : List (ℕ × List UInt8) := []
  hub : Server
  /-- History: the process that has created `agent_id` and not written it yet. -/
  creating : Option ℕ := none
  /-- History: what the Hub has handed out to this machine, whether or not it got there. -/
  granted : List Grant := []

/-- `json.MarshalIndent` and `json.Unmarshal` of the stored credentials; not every time has a text. -/
structure CredentialCodec where
  marshal : StoredCredentials → Option (List UInt8)
  unmarshal : List UInt8 → Option StoredCredentials
  roundTrip : ∀ creds data, marshal creds = some data → unmarshal data = some creds

inductive Delivery
  | lost
  | replyLost
  | delivered
  deriving DecidableEq

/-- What a step cannot influence: whether a system call fails, how much of a write is done, the random
bytes, what the network does, and how the Hub meets a request. -/
structure Chance where
  fault : Bool
  written : ℕ
  rand : Fin 16 → UInt8
  delivery : Delivery
  occasion : Occasion
  insecure : Bool
  https : Bool
  limited : Bool
  now : ℤ

inductive StartError
  | insecureHub
  | destinationChanged
  | unreadableCredentials
  | noCredential
  | enrollmentFailed
  | identity (text : String)
  deriving DecidableEq

abbrev SiteM (ε α : Type) : Type 1 := Prog Site Chance ε α

namespace Site

/-- A system call that fails with `e`. -/
def sysCall {ε : Type} (e : ε) : SiteM ε Unit :=
  .act fun s c => some (if c.fault then .error e else .ok (), s)

/-! ## The identity -/

def lstatAgentID : SiteM StartError Bool :=
  .act fun s c =>
    some (if c.fault then .error (.identity "agent identity unavailable") else .ok s.agentID.isSome, s)

def readAgentID : SiteM StartError (List Char) :=
  .act fun s c =>
    match s.agentID with
    | some text =>
      some (if c.fault then .error (.identity "stored agent identity is invalid") else .ok text, s)
    | none => some (.error (.identity "stored agent identity is invalid"), s)

/-- `"a_" + strings.TrimPrefix(generated, "t_")` of a new tenant id. -/
def generatedID (rand : Fin 16 → UInt8) : String :=
  "a_" ++ String.ofList ((newTenantID (List.ofFn rand)).toList.drop 2)

def generateID : SiteM StartError String :=
  .act fun s c =>
    some (if c.fault then .error (.identity "identity generation failed") else .ok (generatedID c.rand), s)

/-- The identity of a machine that has none. -/
def newID (explicit : ServerIDFlag) : SiteM StartError String :=
  if explicit.val = "" then generateID else pure explicit.val

/-- `os.OpenFile` with `O_CREATE|O_EXCL`. -/
def createAgentID (t : ℕ) : SiteM StartError Unit :=
  .act fun s c =>
    if c.fault ∨ s.agentID.isSome then
      some (.error (.identity "agent identity creation failed; no hostname fallback"), s)
    else some (.ok (), { s with agentID := some [], creating := some t })

/-- One write; when it fails, any beginning of the text may be there. -/
def writeAgentID (text : List Char) : SiteM StartError Unit :=
  .act fun s c =>
    let s := { s with agentID := some (text.take c.written), creating := none }
    some (if c.fault ∨ c.written < text.length then .error (.identity "agent identity write failed")
      else .ok (), s)

def resolveServerID (t : ℕ) (explicit : ServerIDFlag) : SiteM StartError String := do
  sysCall (.identity "stable identity directory unavailable")
  let there ← lstatAgentID
  if there then do
    let body ← readAgentID
    let id := String.ofList (trimSpace body)
    .failIf (validServerID id = false) (.identity "stored agent identity is invalid")
    .failIf (explicit.val ≠ "" ∧ explicit.val ≠ id) (.identity
      "identity change requires reviewed re-enrollment; existing identity was not overwritten")
    pure id
  else do
    let id ← newID explicit
    createAgentID t
    writeAgentID (id.toList ++ ['\n'])
    sysCall (.identity "agent identity sync failed")
    sysCall (.identity "agent identity close failed")
    pure id

/-! ## The stored credential -/

inductive LoadError
  | noCredentials
  | unreadable
  deriving DecidableEq

variable (J : CredentialCodec)

/-- `Load`; the checks of links, permissions and owner are in its faults. -/
def load : SiteM LoadError StoredCredentials := do
  let there ← .act fun s c => some (if c.fault then .error .unreadable else .ok s.token.isSome, s)
  .failIf (there = false) .noCredentials
  let data ← .act fun s c =>
    match s.token with
    | some data => some (if c.fault then .error .unreadable else .ok data, s)
    | none => some (.error .unreadable, s)
  match J.unmarshal data with
  | none => .fail .unreadable
  | some creds => pure creds

def tempOf (s : Site) (t : ℕ) : Option (List UInt8) :=
  (s.temps.find? fun f => f.1 = t).map (·.2)

/-- `os.CreateTemp`: the name is a new one. -/
def createTemp (t : ℕ) : SiteM EnrollError Unit :=
  .act fun s c =>
    if c.fault then some (.error .save, s)
    else some (.ok (), { s with temps := s.temps.filter (·.1 ≠ t) ++ [(t, [])] })

def writeTemp (t : ℕ) (data : List UInt8) : SiteM EnrollError Unit :=
  .act fun s c =>
    let s := { s with temps := s.temps.filter (·.1 ≠ t) ++ [(t, data.take c.written)] }
    some (if c.fault ∨ c.written < data.length then .error .save else .ok (), s)

def removeTemp (t : ℕ) : SiteM EnrollError Unit :=
  .act fun s c =>
    some (.ok (), if c.fault then s else { s with temps := s.temps.filter (·.1 ≠ t) })

/-- `os.Rename` to `token.json`. -/
def rename (t : ℕ) : SiteM EnrollError Unit :=
  .act fun s c =>
    match s.tempOf t with
    | none => some (.error .save, s)
    | some data =>
      if c.fault then some (.error .save, s)
      else some (.ok (), { s with token := some data, temps := s.temps.filter (·.1 ≠ t) })

def atomicWriteFile (t : ℕ) (data : List UInt8) : SiteM EnrollError Unit := do
  sysCall .save
  createTemp t
  let written ← (do
    writeTemp t data
    -- `Sync` and `Close`
    sysCall .save
    sysCall .save
    rename t : SiteM EnrollError Unit).attempt
  match written with
  | .ok () => pure ()
  | .error e => do
    removeTemp t
    .fail e

/-- `Save`: the directory, the file, and the check of its owner. -/
def save (t : ℕ) (creds : StoredCredentials) : SiteM EnrollError Unit :=
  match J.marshal creds with
  | none => .fail .save
  | some data => do
    sysCall .save
    atomicWriteFile t data
    sysCall .save

/-! ## Enrollment -/

variable (K : KeyTexts) (U : URLs)

/-- What the machine is configured with. -/
structure Config where
  hubURL : String
  apiKey : String
  enrollCode : String

/-- The response to an answer of `handleEnroll`. -/
def replyOf : Except Refusal Issued → EnrollReply
  | .ok (.agent token tenantID serverID) => ⟨201, some ⟨token, tenantID, serverID, ""⟩⟩
  | .ok issued => ⟨issued.status, some ⟨"", "", "", ""⟩⟩
  | .error e => ⟨e.status, some ⟨"", "", "", e.text⟩⟩

def grantOf : Except Refusal Issued → List Grant
  | .ok (.agent token tenantID serverID) => [⟨token, tenantID, serverID⟩]
  | _ => []

/-- The request of `Enroll`, as the Hub meets it. -/
def enrollRequest (c : Chance) (body : Server.EnrollBody) : Request Server.EnrollBody where
  method := "POST"
  https := c.https
  loopback := false
  sameOrigin := false
  limited := c.limited
  apiKeyQuery := ""
  apiKey := ""
  cookie := none
  cached := none
  body := some body

/-- `POST /api/enroll` and its way there and back. An enrollment that the Hub takes back, since it could
not be audited, is left out. -/
def clientDo (body : Server.EnrollBody) : SiteM EnrollError EnrollReply :=
  .act fun s c =>
    if c.delivery = .lost then some (.error .requestFailed, s)
    else
      let (answer, hub) := Server.handleEnroll K c.occasion c.insecure (enrollRequest c body) s.hub
      if answer = .error ⟨503, "audit unavailable"⟩ then none
      else
        let s := { s with hub := hub, granted := s.granted ++ grantOf answer }
        some (if c.delivery = .replyLost then .error .requestFailed else .ok (replyOf answer), s)

/-- The two attempts of `Enroll`. -/
def attempts (body : Server.EnrollBody) : SiteM EnrollError EnrollReply := do
  let first ← (clientDo K body).attempt
  match first with
  | .ok resp => pure resp
  | .error _ => clientDo K body

def enroll (cfg : Config) (t : ℕ) (serverID : String) : SiteM EnrollError StoredCredentials := do
  .failIf (U.requireHTTPSHub cfg.hubURL = false) .insecureHub
  .failIf ((U.parse (cfg.hubURL ++ "/api/enroll")).isNone) .createRequest
  let resp ← attempts K ⟨cfg.enrollCode, serverID, ""⟩
  let now ← .act fun s c => some (.ok c.now, s)
  match storeEnrollment cfg.hubURL now true resp with
  | .error e => .fail e
  | .ok creds => do
    save J t creds
    pure creds

/-! ## The start -/

def agentCredentials (cfg : Config) (t : ℕ) (explicit : ServerIDFlag) : SiteM StartError String := do
  .failIf (U.requireHTTPSHub cfg.hubURL = false) .insecureHub
  if cfg.apiKey ≠ "" then pure cfg.apiKey
  else do
    let stored ← (load J).attempt
    match stored with
    | .ok creds => do
      .failIf (U.sameHubOrigin creds.hubURL cfg.hubURL = false) .destinationChanged
      let id ← resolveServerID t explicit
      .failIf (creds.serverID ≠ id) .destinationChanged
      pure creds.token
    | .error .unreadable => .fail .unreadableCredentials
    | .error .noCredentials => do
      .failIf (cfg.enrollCode = "") .noCredential
      let id ← resolveServerID t explicit
      let creds ← (enroll J K U cfg t id).mapError fun _ => StartError.enrollmentFailed
      pure creds.token

/-- What `bindAgentSpool` binds the spool to. -/
def bindAgentSpool (cfg : Config) : SiteM StartError (Option (String × String)) :=
  if cfg.apiKey = "" then do
    let stored ← (load J).attempt
    match stored with
    | .ok creds => pure (some (creds.tenantID, creds.serverID))
    | .error _ => pure none
  else pure none

/-- An agent that was started: its key, what its spool is bound to, and the server it reports for. -/
structure Started where
  key : String
  bound : Option (String × String)
  serverID : String
  deriving DecidableEq

def makeProgram (cfg : Config) (t : ℕ) (explicit : ServerIDFlag) : SiteM StartError Started := do
  let key ← agentCredentials J K U cfg t explicit
  let bound ← bindAgentSpool J cfg
  let serverID ← resolveServerID t explicit
  pure ⟨key, bound, serverID⟩

/-! ## Beside others -/

/-- What else happens at the Hub: any call of the credential store that registers only fresh hashes,
issues tokens with their own hashes, and leaves the active agent credentials of the server alone. -/
def admitted (server : String) (db : CredentialDB) (c : CredentialCall) : Bool :=
  (match c.op with
    | .upsertAPIKey r => db.apiKeys.all fun k => k.keyHash ≠ r.keyHash
    | .completeEnrollment req => req.tokenHash = K.hashAPIKey req.token
    | _ => true)
  && db.apiKeys.all fun k => !(k.active && k.serverID = server)
    || (db.step c).apiKeys.any fun k' => k'.keyHash = k.keyHash && k'.active

/-- Every call is the start of an agent. -/
def service (cfg : Config) (server : String) :
    Service Site Chance StartError Started ServerIDFlag CredentialCall where
  body explicit t := makeProgram J K U cfg t explicit
  env s c :=
    if admitted K server s.hub.db.credentials c then
      { s with hub.db.credentials := s.hub.db.credentials.step c }
    else s
  restart s := s

end Site

end WMonitor
