import WMonitor.Auth
import WMonitor.Spool

/-!
# Delivery

The two ends of the wire: `deliverBatch` and `deliver` of `agent/agent.go`, and `receiveBatch` of
`server/server.go` with its compatibility endpoint for single records. JSON and SHA-256 are
parameters. What the Hub decides outside of ingestion (who the principal is, whether it may send,
whether the disk is full) comes with the request, and what the network does is a parameter of
`deliver`.
-/

namespace WMonitor

/-- The JSON texts on the wire; each `parse` is `DecodeIngest` into that type once the size of the
text is checked. -/
structure Wire extends EventCodec where
  parseMetric : List UInt8 → Except String MetricRow
  parseProcess : List UInt8 → Except String ProcessRow
  parseEvent : List UInt8 → Except String IngestEvent
  parseBatch : List UInt8 → Except String IngestBatch
  /-- `json.Unmarshal`, as the agent reads back what it sent. -/
  unmarshalBatch : List UInt8 → Except String IngestBatch
  encodeBatch : IngestBatch → Except String (List UInt8)

def decodeIngest {α : Type} (parse : List UInt8 → Except String α) (body : List UInt8) :
    Except String α :=
  if body.length = 0 ∨ body.length > maxBatchBytes then .error "ingest: invalid body size"
  else parse body

/-- `binary.BigEndian.Uint64`. -/
def bigEndian (bs : List UInt8) : ℕ := bs.foldl (fun n b => n * 256 + b.toNat) 0

variable (W : Wire)

/-! ## The agent -/

/-- The record of an old queue that `deliverBatch` makes an event of. -/
def Wire.spooledLegacy (payloadType : String) (body : List UInt8) :
    Except SpoolError IngestEvent := do
  let (event, identity) ← (
    if payloadType = "metric" then
      match decodeIngest W.parseMetric body with
      | .error e => throw (.deliver e none)
      | .ok m =>
        let m := { m with tenantID := "" }
        pure (({ eventID := "", bootID := "legacy", sequence := 0, metric := some m,
                 process := none } : IngestEvent), "metric:" ++ formatRFC3339Nano m.timestamp)
    else if payloadType = "process" then
      match decodeIngest W.parseProcess body with
      | .error e => throw (.deliver e none)
      | .ok p =>
        let p := { p with tenantID := "" }
        pure ({ eventID := "", bootID := "legacy", sequence := 0, metric := none,
                process := some p },
          "process:" ++ formatRFC3339Nano p.timestamp ++ ":" ++ String.ofList (itoa p.pid))
    else throw (.deliver "agent: unsupported spooled event" none))
  let hash := W.sha256 (encodeText identity.toList)
  return { event with
    eventID := "legacy-" ++ hexEncode hash
    sequence := bigEndian (hash.take 8) % 2 ^ 63 ||| 1 }

/-- The event of one entry of the queue. -/
def Wire.spooledEvent (payloadType : String) (body : List UInt8) :
    Except SpoolError IngestEvent :=
  if payloadType = "event" then
    match decodeIngest W.parseEvent body with
    | .error _ => .error (.deliver "agent: invalid spooled event" none)
    | .ok event => .ok event
  else W.spooledLegacy payloadType body

/-- The bytes of an entry's body. -/
def SpoolEntry.raw (e : SpoolEntry) : List UInt8 := encodeText e.body.print

def Wire.spooledEvents : List SpoolEntry → Except SpoolError (List IngestEvent)
  | [] => .ok []
  | e :: es => do
    let event ← W.spooledEvent e.payloadType e.raw
    let events ← spooledEvents es
    return event :: events

/-- `deliverBatch` up to the call of `deliver`: the body it sends. -/
def Wire.batchBody (entries : List SpoolEntry) : Except SpoolError (List UInt8) := do
  let events ← W.spooledEvents entries
  match W.encodeBatch ⟨ingestSchema, events⟩ with
  | .error e => throw (.deliver e none)
  | .ok body =>
    if body.length > maxBatchBytes then throw (.deliver "agent: batch exceeds byte limit" none)
    return body

/-- An acknowledgement: for each event its id and what became of it. -/
structure Ack where
  status : String
  outcomes : List (String × String)
  deriving DecidableEq

/-- What comes back from a request: `ack` is there if `DecodeIngest` accepts the body, `delay` is
what `retryAfterDelay` makes of the header. -/
inductive Reply
  | lost
  | incomplete
  | response (status : ℕ) (ack : Option Ack) (delay : ℤ)
  deriving DecidableEq

/-- An error that may be retried. -/
def retryable (message : String) (delay : ℤ) : SpoolError := .deliver message (some delay)

/-- The outcomes are those of the events, in their order. -/
def Ack.answers (ack : Ack) (events : List IngestEvent) : Bool :=
  (ack.outcomes.zip events).all fun (o, event) =>
    o.1 = event.eventID && (o.2 = "accepted" || o.2 = "duplicate")

/-- The check of the reply to a batch that was answered with success. -/
def Wire.checkAck (body : List UInt8) (ack : Option Ack) : Except SpoolError Unit :=
  match W.unmarshalBatch body, ack with
  | .ok sent, some ack =>
    if ack.status ≠ "accepted" ∨ ack.outcomes.length ≠ sent.events.length then
      .error (retryable "agent: invalid acknowledgement" 0)
    else if ack.answers sent.events then .ok ()
    else .error (retryable "agent: acknowledgement identity mismatch" 0)
  | _, _ => .error (retryable "agent: invalid acknowledgement" 0)

/-- The loop of `deliver`, with so many attempts left; the first of the two may renew the
credential. -/
def Wire.deliverLoop {η θ : Type} (transport : String → List UInt8 → SpoolM η θ Reply)
    (reauth : Option (SpoolM η θ Unit)) (payloadType : String) (body : List UInt8) :
    ℕ → SpoolM η θ Unit
  | 0 => .fail (.deliver "agent: authentication retry limit reached" none)
  | left + 1 => do
    let reply ← transport payloadType body
    match reply with
    | .lost => .fail (retryable "agent: transport failed" 0)
    | .incomplete => .fail (retryable "agent: incomplete or oversized acknowledgement" 0)
    | .response status ack delay =>
      if status = 202 ∨ status = 200 then
        if payloadType ≠ "batch" then pure () else .ofExcept (W.checkAck body ack)
      else if status = 401 then
        match left, reauth with
        | 1, some renew => do
          let r ← renew.attempt
          match r with
          | .ok () => deliverLoop transport reauth payloadType body left
          | .error _ =>
            .fail (.deliver "agent: credential rejected; queued evidence retained" none)
        | _, _ => .fail (.deliver "agent: credential rejected; queued evidence retained" none)
      else if status = 429 then
        .fail (retryable "agent: rate or accepted-data budget exceeded" delay)
      else if status ≥ 500 then
        .fail (retryable ("agent: hub returned HTTP " ++ String.ofList (itoa status)) 0)
      else .fail (.deliver ("agent: hub rejected event with HTTP " ++ String.ofList (itoa status)
        ++ "; operator review required") none)

def Wire.deliver {η θ : Type} (transport : String → List UInt8 → SpoolM η θ Reply)
    (reauth : Option (SpoolM η θ Unit)) (payloadType : String) (body : List UInt8) :
    SpoolM η θ Unit :=
  W.deliverLoop transport reauth payloadType body 2

def Wire.deliverBatch {η θ : Type} (transport : String → List UInt8 → SpoolM η θ Reply)
    (reauth : Option (SpoolM η θ Unit)) (entries : List SpoolEntry) : SpoolM η θ Unit := do
  let body ← .ofExcept (W.batchBody entries)
  W.deliver transport reauth "batch" body

/-! ## The Hub -/

/-- The record that the compatibility endpoint makes a batch of. -/
def Wire.legacyBatch (type : String) (body : List UInt8) : Except String IngestBatch := do
  let (event, identity) ← (
    if type = "metric" then do
      let m ← decodeIngest W.parseMetric body
      pure (({ eventID := "", bootID := "legacy", sequence := 0, metric := some m,
               process := none } : IngestEvent), "metric:" ++ formatRFC3339Nano m.timestamp)
    else if type = "process" then do
      let p ← decodeIngest W.parseProcess body
      pure ({ eventID := "", bootID := "legacy", sequence := 0, metric := none,
              process := some p },
        "process:" ++ formatRFC3339Nano p.timestamp ++ ":" ++ String.ofList (itoa p.pid))
    else throw "unknown payload type")
  let hash := W.sha256 (encodeText identity.toList)
  return ⟨ingestSchema, [{ event with
    eventID := "legacy-" ++ hexEncode hash
    sequence := bigEndian (hash.take 8) % 2 ^ 63 ||| 1 }]⟩

/-- A request, as the handler reads it: `body` is none if it could not be read or was too long. -/
structure IngestRequest where
  post : Bool
  legacy : Bool
  type : String
  body : Option (List UInt8)
  deriving DecidableEq

structure IngestResponse where
  status : ℕ
  error : String := ""
  /-- Seconds. -/
  retryAfter : Option ℤ := none
  ack : Option Ack := none
  deriving DecidableEq

/-- What the rest of the Hub decides for a request: the principal, or how `authPrincipal` answered;
whether the limiter admits it; whether there is an ingestion store; what the retention provider says
of the disk, if there is one; how the transaction's driver fares, and the clock each time it is
read. -/
structure Reception where
  auth : Except IngestResponse Principal
  admitted : Bool
  available : Bool
  pressure : Option Bool
  policy : IngestPolicy
  fault : Fault
  receivedAt : ℤ
  acceptedAt : ℤ
  answeredAt : ℤ

def OutcomeStatus.text : OutcomeStatus → String
  | .accepted => "accepted"
  | .duplicate => "duplicate"

/-- The seconds until the next day in UTC, and one more. -/
def untilNextDay (now : ℤ) : ℤ := ((utcDay now + 1) * (24 * hour) - now) / second + 1

/-- What `receiveBatch` answers to the result of `AcceptIngest`. -/
def Reception.answer (r : Reception) : Except IngestError (List IngestOutcome) → IngestResponse
  | .error .eventConflict =>
    { status := 409, error := "event content conflicts with its accepted identity" }
  | .error .acceptedBudget =>
    { status := 429, error := "accepted-data budget exhausted",
      retryAfter := some (untilNextDay r.answeredAt) }
  | .error _ => { status := 503, error := "ingest transaction did not complete" }
  | .ok outs =>
    { status := 202, ack := some ⟨"accepted", outs.map fun o => (o.eventID, o.status.text)⟩ }

/-- `AcceptIngest` and its answer. A driver may fail with the transaction committed or not. -/
def Reception.accept (r : Reception) (principal : Principal) (batch : IngestBatch) (db : HubDB) :
    HubDB × IngestResponse :=
  let (db', result) :=
    db.acceptIngest W.toEventCodec principal.tenantID principal.agentID batch r.policy r.acceptedAt
  match r.fault with
  | .none => (db', r.answer result)
  | .before => (db, { status := 503, error := "ingest transaction did not complete" })
  | .after => (db', { status := 503, error := "ingest transaction did not complete" })

/-- The batch of a request's body, or the text of the error. -/
def Wire.readBatch (req : IngestRequest) (body : List UInt8) : Except String IngestBatch :=
  if req.legacy then (W.legacyBatch req.type body).mapError fun _ => "invalid legacy event"
  else (decodeIngest W.parseBatch body).mapError fun _ => "invalid batch JSON"

/-- `receiveBatch` from the body on. -/
def Reception.process (r : Reception) (principal : Principal) (req : IngestRequest) (db : HubDB) :
    HubDB × IngestResponse :=
  match req.body with
  | none => (db, { status := 413, error := "body exceeds limit" })
  | some body =>
    if body.length > maxBatchBytes then (db, { status := 413, error := "body exceeds limit" })
    else match W.readBatch req body with
      | .error text => (db, { status := 400, error := text })
      | .ok batch =>
        match normalizeIngest batch principal.tenantID principal.agentID r.receivedAt with
        | .error _ =>
          (db, { status := 400, error := "invalid event identity, timestamp or value" })
        | .ok batch => r.accept W principal batch db

def receiveBatch (r : Reception) (req : IngestRequest) (db : HubDB) : HubDB × IngestResponse :=
  if !req.post then (db, { status := 405, error := "method not allowed" })
  else match r.auth with
    | .error response => (db, response)
    | .ok principal =>
      if principal.kind ≠ kindAgent ∨ principal.agentID = "" then
        (db, { status := 403, error := "a bound machine credential is required" })
      else if !r.admitted then
        (db, { status := 429, error := "agent request rate exceeded", retryAfter := some 1 })
      else if !r.available then (db, { status := 503, error := "atomic ingestion unavailable" })
      else if r.pressure = some true then
        (db, { status := 503, error := "storage disk budget exhausted", retryAfter := some 60 })
      else r.process W principal req db

/-! ## A network that loses nothing -/

/-- The Hub's tables, and how many requests it has had. -/
structure DirectHub where
  db : HubDB
  requests : ℕ := 0

/-- A request that the Hub handles at once, and its reply. The choice says how each request finds the
Hub, by its number. -/
def Wire.direct (_payloadType : String) (body : List UInt8) : SpoolM DirectHub (ℕ → Reception) Reply :=
  .act fun s c =>
    let (db, response) :=
      receiveBatch W (c.env s.env.requests) ⟨true, false, "", some body⟩ s.env.db
    some (.ok (.response response.status response.ack (response.retryAfter.getD 1 * second)),
      { s with env := ⟨db, s.env.requests + 1⟩ })

/-- The queue after a pass of `DrainBatches` that is not cancelled and meets no fault of its files. -/
def Wire.drainPass (reauth : Option (SpoolM DirectHub (ℕ → Reception) Unit)) (maximum : ℕ)
    (s : Spool DirectHub) (hub : ℕ → Reception) : Spool DirectHub :=
  (((Spool.drainBatches 0 (pure ()) maximum (W.deliverBatch W.direct reauth)).alone
    { env := hub } s).map (·.2)).getD s

/-- The queue after one pass after the other, with no appends in between. -/
def Wire.drainPasses (reauth : Option (SpoolM DirectHub (ℕ → Reception) Unit)) (maximum : ℕ)
    (hubs : List (ℕ → Reception)) (s : Spool DirectHub) : Spool DirectHub :=
  Run.run (W.drainPass reauth maximum) s hubs

end WMonitor
