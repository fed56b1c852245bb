import WMonitor.Delivery

/-!
# The agent and the Hub

`agent/agent.go` as a whole: a process that gives every row it is handed an identity and puts it into
the durable queue (`enqueue`), and a loop that drains the queue to the Hub (`drainTurn`). The Hub's
tables and the requests under way are the environment of the queue. The network may lose, delay or
repeat requests and lose or garble replies, and a crash takes the process but not its files.

What crypto/rand returns, what the operating system says of its boot and what comes back from the
network are choices of the environment. A new event id was not drawn before, and a reply that passes
for the acknowledgement of a batch is one that the Hub gave to it. Everything the Hub receives under
the agent's credential was sent by the agent; other principals send what they like.
-/

namespace WMonitor

/-- What `InsertMetric` and `InsertProcess` are given. -/
inductive Row
  | metric (m : MetricRow)
  | process (p : ProcessRow)
  deriving DecidableEq

def Row.serverID : Row → String
  | .metric m => m.serverID
  | .process p => p.serverID

/-- The event of a row: the tenant is left to the Hub. -/
def Row.event (eventID bootID : String) (sequence : ℕ) : Row → IngestEvent
  | .metric m => ⟨eventID, bootID, sequence, some { m with tenantID := "" }, none⟩
  | .process p => ⟨eventID, bootID, sequence, none, some { p with tenantID := "" }⟩

inductive AgentError
  | insecureHub
  | noBootIdentity
  | random
  | incompleteIdentity
  | closed
  | noServerIdentity
  | sequenceExhausted
  | marshal (text : String)
  | notDraining
  | spool (e : SpoolError)
  deriving DecidableEq

/-- `spool` says whether the queue could be opened. -/
structure Agent where
  hubURL : String
  apiKey : String
  spool : Bool
  initErr : Option AgentError
  closed : Bool
  bound : Bool
  bootID : String
  sequence : ℕ
  deriving DecidableEq

/-! ## A new agent -/

/-- `URL.Hostname`: without the port and the brackets of an IPv6 address. -/
def hostname (host : List Char) : List Char :=
  let port := (host.reverse.takeWhile (· ≠ ':')).reverse
  let host := if host.contains ':' ∧ port.all Char.isDigit then
      host.take (host.length - port.length - 1) else host
  match host with
  | '[' :: rest => if rest.getLast? = some ']' then rest.dropLast else host
  | _ => host

/-- `RequireHTTPSHub` accepts. -/
def URLs.requireHTTPSHub (U : URLs) (raw : String) : Bool :=
  match U.parse (canonicalHubURL raw) with
  | none => false
  | some u =>
    let host := (hostname u.host.toList).map Char.toLower
    u.scheme ≠ "" && (U.equalFold u.scheme "https" || host = "localhost".toList
      || "127.".toList.isPrefixOf host || host = "::1".toList)

/-- `newAgent` on the data directory: what opening the queue, the time of the boot and the seed of the
sequence come to. -/
def newAgent (U : URLs) (hubURL apiKey : String) (opened : Except SpoolError Unit)
    (boot seed : Option UInt64) : Agent :=
  let a : Agent := ⟨canonicalHubURL hubURL, apiKey, false, none, false, false, "", 0⟩
  if !U.requireHTTPSHub hubURL then { a with initErr := some .insecureHub }
  else match opened with
    | .error e => { a with initErr := some (.spool e) }
    | .ok () =>
      let a := { a with spool := true }
      let boot := boot.getD 0
      if boot = 0 then { a with initErr := some .noBootIdentity }
      else
        let a := { a with bootID := "boot-" ++ String.ofList (itoa boot.toNat) }
        match seed with
        | none => { a with initErr := some .random }
        | some seed => { a with sequence := seed.toNat % 2 ^ 62 }

/-! ## The world -/

/-- The process, its mutex and the Hub's tables. The rest is history: the events that were given an
identity, the bodies that were sent, the calls of `AcceptIngest` and the acknowledgements to the
agent. -/
structure World where
  agentMu : Option ℕ := none
  agent : Option Agent := none
  db : HubDB := .empty
  drawn : List IngestEvent := []
  sent : List (List UInt8) := []
  calls : List IngestCall := []
  acks : List (List UInt8 × Ack) := []

/-- What the agent's steps are given. -/
structure AgentChoice where
  boot : Option UInt64 := none
  seed : Option UInt64 := none
  id : Option (Fin 16 → UInt8) := none
  /-- The credential that `reauth` obtains. -/
  key : Option String := none
  reply : Reply := .lost

abbrev AgentM (α : Type) : Type 1 := Prog (Spool World) (Choice AgentChoice) AgentError α

namespace Agent

variable {α : Type}

def onWorld (s : Spool World) (f : World → World) : Spool World := { s with env := f s.env }

/-- Of the running process. -/
def setAgent (f : Agent → Agent) (w : World) : World := { w with agent := w.agent.map f }

/-- A step of the running process. -/
def act {ε : Type} (f : Agent → Spool World → Choice AgentChoice → Option (Except ε α × Spool World)) :
    Prog (Spool World) (Choice AgentChoice) ε α :=
  .act fun s c => s.env.agent.bind fun a => f a s c

def theAgent : AgentM Agent := act fun a s _ => some (.ok a, s)

def modifyAgent (f : Agent → Agent) : AgentM Unit := .modify fun s => onWorld s (setAgent f)

def lockAgent (t : ℕ) : AgentM Unit :=
  .act fun s _ => if s.env.agentMu = none then
    some (.ok (), onWorld s fun w => { w with agentMu := some t }) else none

def unlockAgent : AgentM Unit := .modify fun s => onWorld s fun w => { w with agentMu := none }

/-- Between `a.mu.Lock()` and `a.mu.Unlock()`. -/
def locked (t : ℕ) (p : AgentM α) : AgentM α := do
  lockAgent t
  let r ← p.attempt
  unlockAgent
  .ofExcept r

/-! ## Enqueue -/

/-- The process starts: it opens the queue anew. -/
def start (U : URLs) (hubURL apiKey : String) : AgentM Unit :=
  .act fun s c =>
    if s.env.agent.isSome then none
    else
      let opened := if c.fault = .none then .ok () else .error .io
      some (.ok (), onWorld s fun w =>
        { w with agent := some (newAgent U hubURL apiKey opened c.env.boot c.env.seed) })

def bindIdentity (U : URLs) (t : ℕ) (tenant server : String) : AgentM Unit :=
  locked t do
    let a ← theAgent
    if !a.spool ∨ tenant = "" ∨ server = "" then
      modifyAgent fun a => { a with initErr := some .incompleteIdentity }
    else do
      let r ← (Spool.bindDestination U t a.hubURL tenant server).attempt
      match r with
      | .error e => modifyAgent fun a => { a with initErr := some (.spool e) }
      | .ok () => modifyAgent fun a => { a with bound := true }

/-- Gives a row its identity. -/
def stamp (row : Row) : AgentM IngestEvent :=
  act fun a s c =>
    if a.sequence ≥ maxInt64 then some (.error .sequenceExhausted, s)
    else
      let s := onWorld s (setAgent fun a => { a with sequence := a.sequence + 1 })
      match c.env.id with
      | none => some (.error .random, s)
      | some id =>
        let event := row.event (hexEncode (List.ofFn id)) a.bootID (a.sequence + 1)
        if event.eventID ∈ s.env.drawn.map (·.eventID) then none
        else some (.ok event, onWorld s fun w => { w with drawn := w.drawn ++ [event] })

variable (W : Wire)

/-- `json.Marshal` of an event. -/
def encode (event : IngestEvent) : Except AgentError (List Char) :=
  match W.marshal event with
  | .error e => .error (.marshal e)
  | .ok body =>
    match decodeText body with
    | none => .error (.marshal "")
    | some text => .ok text

/-- Binds the queue to the credential, if it is not bound yet. -/
def bindCredential (U : URLs) (t : ℕ) (a : Agent) (server : String) : AgentM Unit :=
  if a.bound then pure ()
  else do
    .failIf (!a.spool ∨ server = "") .noServerIdentity
    (Spool.bindDestination U t a.hubURL
      ("credential:" ++ hexEncode (W.sha256 (encodeText a.apiKey.toList))) server).mapError .spool
    modifyAgent fun a => { a with bound := true }

/-- `enqueue`, of a row without its tenant. -/
def enqueue (U : URLs) (t : ℕ) (row : Row) : AgentM Unit :=
  locked t do
    let a ← theAgent
    .failIf a.closed .closed
    match a.initErr with
    | some e => .fail e
    | none => do
      bindCredential W U t a row.serverID
      let event ← stamp row
      let text ← .ofExcept (encode W event)
      (Spool.append t "event" text).mapError .spool

/-! ## Draining -/

/-- The reply is a success of the Hub's, or none at all. -/
def permits (w : World) (body : List UInt8) : Reply → Bool
  | .response status ack _ =>
    if (status = 202 ∨ status = 200) ∧ (W.checkAck body ack).isOk then
      ack.any fun a => w.acks.contains (body, a)
    else true
  | _ => true

/-- A request: the credential is read under the mutex, then the body goes out, then a reply comes. -/
def transport (_payloadType : String) (body : List UInt8) : SpoolM World AgentChoice Reply := do
  act fun _ s _ => if s.env.agentMu = none then some (.ok (), s) else none
  .modify fun s => onWorld s fun w => { w with sent := w.sent ++ [body] }
  .act fun s c => if permits W s.env body c.env.reply then some (.ok c.env.reply, s) else none

/-- `reauth`, and `SetAPIKey`. -/
def reauth : SpoolM World AgentChoice Unit :=
  .act fun s c =>
    match c.env.key with
    | none => some (.error .io, s)
    | some key =>
      if s.env.agentMu = none then
        some (.ok (), onWorld s (setAgent fun a => { a with apiKey := key }))
      else none

/-- The context is cancelled when the agent is closed, or its parent is. -/
def ctxErr : SpoolM World AgentChoice Unit :=
  .act fun s c => some (if c.fault = .none ∧ s.env.agent.all (!·.closed) then .ok ()
    else .error .cancelled, s)

/-- One turn of `drainLoop`, which `StartDrainer` starts. -/
def drainTurn (t : ℕ) : AgentM Unit := do
  let a ← act fun a s _ => if s.env.agentMu = none then some (.ok a, s) else none
  .failIf (a.closed ∨ !a.spool ∨ a.initErr.isSome ∨ !a.bound) .notDraining
  let _ ← (Spool.drainBatches t ctxErr maxBatchEvents
    (W.deliverBatch (transport W) (some reauth))).mapError fun e => .spool e.2
  pure ()

def close (t : ℕ) : AgentM Unit := do
  let a ← locked t do
    let a ← theAgent
    modifyAgent fun a => { a with closed := true }
    pure a
  if a.closed ∨ !a.spool then pure () else (Spool.close t).mapError .spool

end Agent

/-! ## The Hub -/

/-- What of a request reaches `AcceptIngest`. -/
def Reception.forwarded (W : Wire) (r : Reception) (req : IngestRequest) :
    Option (Principal × IngestBatch) :=
  match r.auth, req.body with
  | .ok p, some body =>
    if req.post ∧ p.kind = kindAgent ∧ p.agentID ≠ "" ∧ r.admitted ∧ r.available
        ∧ r.pressure ≠ some true ∧ body.length ≤ maxBatchBytes then
      match W.readBatch req body with
      | .ok raw =>
        match normalizeIngest raw p.tenantID p.agentID r.receivedAt with
        | .ok batch => some (p, batch)
        | .error _ => none
      | .error _ => none
    else none
  | _, _ => none

/-- The transaction of a request, unless it is rolled back by the driver. -/
def Reception.calls (W : Wire) (r : Reception) (req : IngestRequest) : List IngestCall :=
  match r.forwarded W req with
  | some (p, batch) =>
    if r.fault = .before then [] else [.accept p.tenantID p.agentID batch r.policy r.acceptedAt]
  | none => []

namespace World

variable (W : Wire) (tenant server : String)

/-- The request is authenticated with the agent's credential. -/
def owned (r : Reception) : Bool :=
  match r.auth with
  | .ok p => p.tenantID = tenant ∧ p.agentID = server
  | .error _ => false

/-- Under the agent's credential only what the agent sent arrives. -/
def arrives (w : World) (r : Reception) (req : IngestRequest) : Bool :=
  !owned tenant server r || (!req.legacy && req.body.all w.sent.contains)

/-- The Hub handles a request. -/
def receive (w : World) (x : Reception × IngestRequest) : World :=
  if w.arrives tenant server x.1 x.2 then
    let (db, response) := receiveBatch W x.1 x.2 w.db
    { w with
      db := db
      calls := w.calls ++ x.1.calls W x.2
      acks := match x.2.body, response.ack with
        | some body, some ack =>
          if owned tenant server x.1 then w.acks ++ [(body, ack)] else w.acks
        | _, _ => w.acks }
  else w

end World

inductive AgentCall
  | start (hubURL apiKey : String)
  | bindIdentity (tenant server : String)
  | insert (row : Row)
  | drainTurn
  | close
  deriving DecidableEq

namespace Agent

variable (U : URLs) (W : Wire)

def serve : AgentCall → ℕ → AgentM Unit
  | .start hubURL apiKey, _ => start U hubURL apiKey
  | .bindIdentity tenant server, t => bindIdentity U t tenant server
  | .insert row, t => enqueue W U t row
  | .drainTurn, t => drainTurn W t
  | .close, t => close t

/-- The agent of a tenant and server, and the Hub. -/
def service (tenant server : String) :
    Service (Spool World) (Choice AgentChoice) AgentError Unit AgentCall (Reception × IngestRequest)
    where
  body := serve U W
  env s x := onWorld s fun w => w.receive W tenant server x
  restart s := onWorld s.reopen fun w => { w with agentMu := none, agent := none }

/-- The system after a list of turns, from an empty queue and an empty Hub. -/
def reached (tenant server : String)
    (turns : List (Turn (Choice AgentChoice) AgentCall (Reception × IngestRequest))) :=
  Pool.after (service U W tenant server) { env := {} } turns

end Agent

end WMonitor
