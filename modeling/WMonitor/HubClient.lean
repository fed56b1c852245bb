import WMonitor.Agent
import WMonitor.NetURL

/-!
# The agent as a client of the Hub

Which requests leave the machine: the redirect policy of `agent/transport.go`, `Enroll`, and the
requests of `deliver`. The network answers each request as it likes, also with redirects to anywhere;
`client.Do` asks the policy before each hop and stops where it refuses.
-/

namespace WMonitor

/-- `isLoopbackHost`. -/
def isLoopbackHost (host : List Char) : Bool :=
  let h := host.map Char.toLower
  h = "localhost".toList || h = "127.0.0.1".toList || h = "::1".toList

/-- A decimal byte, as in a dotted address. -/
def octet (field : List Char) : Option ℕ :=
  let n := Nat.ofDigitChars 10 field 0
  if field ≠ [] ∧ field.all Char.isDigit ∧ (field.length = 1 ∨ field.head? ≠ some '0') ∧ n ≤ 255 then
    some n
  else none

/-- The four bytes of a dotted IPv4 address. -/
def parseIPv4 (host : List Char) : Option (List ℕ) :=
  let fields := host.splitOn '.'
  if fields.length = 4 then fields.mapM octet else none

/-- The host is the name or a literal address of the machine itself. -/
def ParsedURL.loopback (u : ParsedURL) : Bool :=
  let host := (hostname u.host.toList).map Char.toLower
  host = "localhost".toList || host = "::1".toList
    || (parseIPv4 host).any fun bytes => bytes.head? = some 127

/-- What `RoundTrip` sends at all: it speaks the scheme, and there is a host that can be put into ASCII,
which no host with a space can. -/
def ParsedURL.sendable (u : ParsedURL) : Bool :=
  (u.scheme = "https" || u.scheme = "http") && u.host ≠ "" && u.host.toList.all fun c => !isSpace c

namespace URLs

variable (U : URLs)

/-- `noCredentialRedirect` returns nil. -/
def noCredentialRedirect (req : ParsedURL) (via : List ParsedURL) : Bool :=
  match via.getLast? with
  | none => true
  | some prev =>
    (req.scheme = "https" || isLoopbackHost (hostname req.host.toList))
      && (U.equalFold req.host prev.host && U.equalFold req.scheme prev.scheme)

/-- The requests that `client.Do` sends after those in `via` when it is redirected to these URLs, one
after the other, and whether it got to the end. -/
def follow (via : List ParsedURL) : List ParsedURL → List ParsedURL × Bool
  | [] => (via, true)
  | req :: redirects =>
    if U.noCredentialRedirect req via && req.sendable then follow (via ++ [req]) redirects
    else (via, false)

/-- What the network does with a request: where it redirects it to, and what comes back at the end, if
anything does. -/
structure Exchange (α : Type) where
  redirects : List ParsedURL
  reply : Option α

/-- `client.Do`: the requests that were sent, and the response. -/
def doRequest {α : Type} (req : ParsedURL) (x : Exchange α) : List ParsedURL × Option α :=
  if req.sendable then
    let (sent, ended) := U.follow [req] x.redirects
    (sent, if ended then x.reply else none)
  else ([], none)

end URLs

/-! ## Enrollment -/

structure EnrollResp where
  token : String
  tenantID : String
  serverID : String
  error : String
  deriving DecidableEq

structure StoredCredentials where
  token : String
  tenantID : String
  serverID : String
  hubURL : String
  enrolledAt : ℤ
  deriving DecidableEq

inductive EnrollError
  | insecureHub
  | createRequest
  | requestFailed
  | failed (status : ℕ) (error : String)
  | rejected (status : ℕ)
  | decode
  | save
  deriving DecidableEq

/-- A response: its status, and its body if it can be decoded. -/
structure EnrollReply where
  status : ℕ
  body : Option EnrollResp
  deriving DecidableEq

/-- `Enroll` after the request: what becomes of the response. -/
def storeEnrollment (hubURL : String) (now : ℤ) (saved : Bool) (resp : EnrollReply) :
    Except EnrollError StoredCredentials :=
  if resp.status ≠ 201 then
    let text := (resp.body.map (·.error)).getD ""
    if text ≠ "" then .error (.failed resp.status text) else .error (.rejected resp.status)
  else match resp.body with
    | none => .error .decode
    | some data =>
      if saved then .ok ⟨data.token, data.tenantID, data.serverID, hubURL, now⟩ else .error .save

/-- `Enroll`: the requests that were sent, and the result. The network is given for both attempts;
`saved` says whether the credentials could be stored. -/
def Agent.enroll (U : URLs) (hubURL : String) (first second : URLs.Exchange EnrollReply) (now : ℤ)
    (saved : Bool) : List ParsedURL × Except EnrollError StoredCredentials :=
  if !U.requireHTTPSHub hubURL then ([], .error .insecureHub)
  else match U.parse (hubURL ++ "/api/enroll") with
    | none => ([], .error .createRequest)
    | some req =>
      let (sent, reply) := U.doRequest req first
      match reply with
      | some resp => (sent, storeEnrollment hubURL now saved resp)
      | none =>
        let (again, reply) := U.doRequest req second
        match reply with
        | some resp => (sent ++ again, storeEnrollment hubURL now saved resp)
        | none => (sent ++ again, .error .requestFailed)

/-! ## Delivery -/

/-- The path that `deliver` posts to. -/
def ingestPath (payloadType : String) : String :=
  if payloadType = "batch" then "/api/v1/ingest/batches" else "/api/ingest?type=" ++ payloadType

/-- The requests of `deliver`, one exchange for each attempt. -/
def Agent.requests {α : Type} (U : URLs) (a : Agent) (payloadType : String)
    (attempts : List (URLs.Exchange α)) : List ParsedURL :=
  match U.parse (a.hubURL ++ ingestPath payloadType) with
  | none => []
  | some req => attempts.flatMap fun x => (U.doRequest req x).1

end WMonitor
