import WMonitor.Delivery

/-!
# The JSON of events

How `encoding/json` writes the structures of `storage/ingest_contract.go` and reads them: a structure
is the list of its fields. `DecodeIngest` refuses unknown fields, `json.Unmarshal` ignores them, and
both replace bytes that are no UTF-8. The texts of floats and times are parameters. Numbers that are
no values of a field's Go type are not written.
-/

namespace WMonitor

/-- How `encoding/json` writes and reads floats and times. A float that is not finite has no text, nor
has a time outside of the years 0 to 9999; every other value is read back from its text. -/
structure Scalars where
  float : F64 → Option NumLit
  parseFloat : NumLit → Option F64
  time : ℤ → Option RawStr
  parseTime : RawStr → Option ℤ
  float_length : ∀ {v lit}, float v = some lit → lit.text.length ≤ 25
  time_length : ∀ {t raw}, time t = some raw → (encodeText raw.text).length ≤ 35
  time_plain : ∀ {t raw}, time t = some raw → ∀ c ∈ raw.text, Json.isHTML c = false
  parseFloat_float : ∀ {v lit}, float v = some lit → parseFloat lit = some v
  parseTime_time : ∀ {t raw}, time t = some raw → parseTime raw = some t
  float_finite : ∀ {v lit}, float v = some lit → ∃ q, v = .fin q

/-- `strconv.ParseUint`, for 64 bits. -/
def parseUint (cs : List Char) : Option ℕ :=
  if cs ≠ [] ∧ cs.all Char.isDigit ∧ Nat.ofDigitChars 10 cs 0 < 2 ^ 64 then
    some (Nat.ofDigitChars 10 cs 0)
  else none

/-- A field of a structure: its key, whether it is left out, how it is written, and how it is read
into a value that may have been read before. The flag refuses unknown fields. -/
structure StructField (α : Type) where
  name : String
  empty : α → Bool
  write : α → Option Json
  read : Bool → α → Json → Option α

section Structures

variable {α β : Type}

def StructField.hasKey (f : StructField α) (key : String) : Bool :=
  isField (String.ofList (f.name.toList.map foldChar)) key

def StructField.member (f : StructField α) (x : α) : Option (RawStr × Json) :=
  (f.write x).map fun v => (Json.quote f.name, v)

def encodeObj (fs : List (StructField α)) (x : α) : Option Json := do
  let ms ← (fs.filter fun f => !f.empty x).mapM fun f => f.member x
  return .obj ms

def readMember (fs : List (StructField α)) (strict : Bool) (x : α) (m : RawStr × Json) : Option α :=
  match fs.find? fun f => f.hasKey (Json.unquote m.1) with
  | some f => f.read strict x m.2
  | none => if strict then none else some x

def decodeObj (fs : List (StructField α)) (strict : Bool) (x : α) : Json → Option α
  | .obj ms => ms.foldlM (readMember fs strict) x
  | .null => some x
  | _ => none

/-- The elements of a slice are read into those that are there already. -/
def decodeElems (fs : List (StructField α)) (strict : Bool) (zero : α) :
    List α → List Json → Option (List α)
  | _, [] => some []
  | xs, j :: js => do
    let y ← decodeObj fs strict (xs.headD zero) j
    let ys ← decodeElems fs strict zero xs.tail js
    return y :: ys

namespace StructField

def string (name : String) (get : α → String) (put : String → α → α) : StructField α where
  name := name
  empty _ := false
  write x := some (.str (Json.quote (get x)))
  read _ x j := (setString (get x) j).map fun s => put s x

def number (name : String) (get : α → β) (put : β → α → α) (write : β → Option NumLit)
    (read : NumLit → Option β) : StructField α where
  name := name
  empty _ := false
  write x := (write (get x)).map Json.num
  read _ x
    | .num lit => (read lit).map fun v => put v x
    | .null => some x
    | _ => none

def writeInt (low high n : ℤ) : Option NumLit :=
  if low ≤ n ∧ n < high then some (Json.int n) else none

def int64 (name : String) (get : α → ℤ) (put : ℤ → α → α) : StructField α :=
  number name get put (writeInt (-2 ^ 63) (2 ^ 63)) fun lit => atoi lit.text

def int32 (name : String) (get : α → ℤ) (put : ℤ → α → α) : StructField α :=
  number name get put (writeInt (-2 ^ 31) (2 ^ 31)) fun lit =>
    (atoi lit.text).filter fun n => -2 ^ 31 ≤ n ∧ n < 2 ^ 31

def uint64 (name : String) (get : α → ℕ) (put : ℕ → α → α) : StructField α :=
  number name get put (fun n => writeInt 0 (2 ^ 64) n) fun lit => parseUint lit.text

def float64 (S : Scalars) (name : String) (get : α → F64) (put : F64 → α → α) : StructField α :=
  number name get put S.float S.parseFloat

def time (S : Scalars) (name : String) (get : α → ℤ) (put : ℤ → α → α) : StructField α where
  name := name
  empty _ := false
  write x := (S.time (get x)).map Json.str
  read _ x
    | .str raw => (S.parseTime raw).map fun t => put t x
    | .null => some x
    | _ => none

/-- A pointer to a structure, with `omitempty`. -/
def pointer (name : String) (fs : List (StructField β)) (zero : β) (get : α → Option β)
    (put : Option β → α → α) : StructField α where
  name := name
  empty x := (get x).isNone
  write x := (get x).bind (encodeObj fs)
  read strict x
    | .null => some (put none x)
    | j => (decodeObj fs strict ((get x).getD zero) j).map fun y => put (some y) x

/-- A slice of structures; the empty slice is the nil slice. -/
def slice (name : String) (fs : List (StructField β)) (zero : β) (get : α → List β)
    (put : List β → α → α) : StructField α where
  name := name
  empty _ := false
  write x := if (get x).isEmpty then some .null else ((get x).mapM (encodeObj fs)).map Json.arr
  read strict x
    | .arr js => (decodeElems fs strict zero (get x) js).map fun ys => put ys x
    | .null => some (put [] x)
    | _ => none

end StructField

/-! ## `DecodeIngest` -/

mutual

/-- `inspectJSONValue`. -/
def inspectJSONValue (depth : ℕ) (j : Json) : Except String Unit :=
  if depth > 16 then .error "ingest: JSON nesting limit exceeded"
  else match j with
    | .arr xs => inspectElems (depth + 1) xs
    | .obj ms => inspectMembers (depth + 1) [] ms
    | _ => .ok ()

def inspectElems (depth : ℕ) : List Json → Except String Unit
  | [] => .ok ()
  | x :: xs =>
    match inspectJSONValue depth x with
    | .ok () => inspectElems depth xs
    | .error e => .error e

def inspectMembers (depth : ℕ) (seen : List String) :
    List (RawStr × Json) → Except String Unit
  | [] => .ok ()
  | (k, x) :: ms =>
    if Json.unquote k ∈ seen then .error "ingest: duplicate or invalid object key"
    else match inspectJSONValue depth x with
      | .ok () => inspectMembers depth (Json.unquote k :: seen) ms
      | .error e => .error e

end

/-- `DecodeIngest` once the size is checked. -/
def parseIngest (fs : List (StructField α)) (zero : α) (body : List UInt8) : Except String α :=
  match Json.parse (lossyText body) with
  | none => .error "invalid JSON text"
  | some j =>
    match inspectJSONValue 0 j with
    | .error e => .error e
    | .ok () =>
      match decodeObj fs true zero j with
      | none => .error "json: cannot unmarshal"
      | some x => .ok x

/-- `json.Unmarshal`. -/
def unmarshalObj (fs : List (StructField α)) (zero : α) (body : List UInt8) : Except String α :=
  match Json.parse (lossyText body) with
  | none => .error "invalid JSON text"
  | some j =>
    if maxNestingDepth < j.depth then .error "exceeded max depth"
    else match decodeObj fs false zero j with
      | none => .error "json: cannot unmarshal"
      | some x => .ok x

/-- `json.Marshal`. -/
def marshalObj (fs : List (StructField α)) (x : α) : Except String (List UInt8) :=
  match encodeObj fs x with
  | none => .error "json: unsupported value"
  | some j => .ok (encodeText j.print)

end Structures

/-! ## The structures -/

variable (S : Scalars)

def MetricRow.zero : MetricRow :=
  ⟨0, zeroTime, "", "", "", .fin 0, .fin 0, .fin 0, 0, 0, 0, .fin 0, .fin 0, 0, 0, .fin 0, .fin 0, 0,
    0, 0, 0, 0⟩

def MetricRow.fields : List (StructField MetricRow) :=
  [.int64 "ID" (·.id) fun v m => { m with id := v },
    .time S "Timestamp" (·.timestamp) fun v m => { m with timestamp := v },
    .string "TenantID" (·.tenantID) fun v m => { m with tenantID := v },
    .string "ServerID" (·.serverID) fun v m => { m with serverID := v },
    .string "Hostname" (·.hostname) fun v m => { m with hostname := v },
    .float64 S "CPUPct" (·.cpuPct) fun v m => { m with cpuPct := v },
    .float64 S "MemPct" (·.memPct) fun v m => { m with memPct := v },
    .float64 S "DiskFreeGB" (·.diskFreeGB) fun v m => { m with diskFreeGB := v },
    .uint64 "NetSentBytes" (·.netSentBytes) fun v m => { m with netSentBytes := v },
    .uint64 "NetRecvBytes" (·.netRecvBytes) fun v m => { m with netRecvBytes := v },
    .int64 "CPUCores" (·.cpuCores) fun v m => { m with cpuCores := v },
    .float64 S "MemTotalGB" (·.memTotalGB) fun v m => { m with memTotalGB := v },
    .float64 S "DiskTotalGB" (·.diskTotalGB) fun v m => { m with diskTotalGB := v },
    .uint64 "DiskReadOps" (·.diskReadOps) fun v m => { m with diskReadOps := v },
    .uint64 "DiskWriteOps" (·.diskWriteOps) fun v m => { m with diskWriteOps := v },
    .float64 S "DiskIOPS" (·.diskIOPS) fun v m => { m with diskIOPS := v },
    .float64 S "NetMBps" (·.netMBps) fun v m => { m with netMBps := v },
    .int64 "ConcurrentUsers" (·.concurrentUsers) fun v m => { m with concurrentUsers := v },
    .uint64 "NetSentExternal" (·.netSentExternal) fun v m => { m with netSentExternal := v },
    .uint64 "NetRecvExternal" (·.netRecvExternal) fun v m => { m with netRecvExternal := v },
    .uint64 "NetSentInternal" (·.netSentInternal) fun v m => { m with netSentInternal := v },
    .uint64 "NetRecvInternal" (·.netRecvInternal) fun v m => { m with netRecvInternal := v }]

def ProcessRow.zero : ProcessRow := ⟨0, zeroTime, "", "", "", 0, "", .fin 0, .fin 0⟩

def ProcessRow.fields : List (StructField ProcessRow) :=
  [.int64 "ID" (·.id) fun v p => { p with id := v },
    .time S "Timestamp" (·.timestamp) fun v p => { p with timestamp := v },
    .string "TenantID" (·.tenantID) fun v p => { p with tenantID := v },
    .string "ServerID" (·.serverID) fun v p => { p with serverID := v },
    .string "Hostname" (·.hostname) fun v p => { p with hostname := v },
    .int32 "PID" (·.pid) fun v p => { p with pid := v },
    .string "Name" (·.name) fun v p => { p with name := v },
    .float64 S "CPUPct" (·.cpuPct) fun v p => { p with cpuPct := v },
    .float64 S "MemMB" (·.memMB) fun v p => { p with memMB := v }]

def IngestEvent.zero : IngestEvent := ⟨"", "", 0, none, none⟩

def IngestEvent.fields : List (StructField IngestEvent) :=
  [.string "event_id" (·.eventID) fun v ev => { ev with eventID := v },
    .string "boot_id" (·.bootID) fun v ev => { ev with bootID := v },
    .uint64 "sequence" (·.sequence) fun v ev => { ev with sequence := v },
    .pointer "metric" (MetricRow.fields S) .zero (·.metric) fun v ev => { ev with metric := v },
    .pointer "process" (ProcessRow.fields S) .zero (·.process) fun v ev => { ev with process := v }]

def IngestBatch.zero : IngestBatch := ⟨"", []⟩

def IngestBatch.fields : List (StructField IngestBatch) :=
  [.string "schema_version" (·.schemaVersion) fun v b => { b with schemaVersion := v },
    .slice "events" (IngestEvent.fields S) .zero (·.events) fun v b => { b with events := v }]

/-- The wire with `encoding/json`. -/
def Wire.json (sha256 : List UInt8 → List UInt8) : Wire where
  marshal := marshalObj (IngestEvent.fields S)
  sha256 := sha256
  parseMetric := parseIngest (MetricRow.fields S) .zero
  parseProcess := parseIngest (ProcessRow.fields S) .zero
  parseEvent := parseIngest (IngestEvent.fields S) .zero
  parseBatch := parseIngest (IngestBatch.fields S) .zero
  unmarshalBatch := unmarshalObj (IngestBatch.fields S) .zero
  encodeBatch := marshalObj (IngestBatch.fields S)

end WMonitor
