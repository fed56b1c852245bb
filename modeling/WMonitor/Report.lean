import WMonitor.Store
import WMonitor.Time

/-!
# Reports

`export/export.go` and `export/report.go`: the summary of a period's metrics, server by server and
for the fleet, and the three reports that are written from it. The arithmetic of float64 is a
parameter, `Arith`; the sums of `int` values are unbounded. The layout of the HTML, CSV and text
files is left out: a report is the data that is laid out.
-/

namespace WMonitor

/-- The float64 operations of the summaries: `lit` is a constant of the source, `ofInt` and `toInt`
the conversions from and to `int`. -/
structure Arith where
  add : F64 → F64 → F64
  sub : F64 → F64 → F64
  mul : F64 → F64 → F64
  div : F64 → F64 → F64
  lit : ℚ → F64
  ofInt : ℤ → F64
  toInt : F64 → ℤ

/-- Exact arithmetic on finite values. -/
def exactArith : Arith where
  add := lift (· + ·)
  sub := lift (· - ·)
  mul := lift (· * ·)
  div a b := if b = .fin 0 then .nan else lift (· / ·) a b
  lit := .fin
  ofInt n := .fin n
  toInt
    | .fin q => if q < 0 then -(-q).floor else q.floor
    | _ => 0
where
  lift (f : ℚ → ℚ → ℚ) : F64 → F64 → F64
    | .fin a, .fin b => .fin (f a b)
    | _, _ => .nan

/-- `Duration.Seconds`. -/
def Arith.seconds (A : Arith) (d : ℤ) : F64 :=
  A.add (A.ofInt (d.tdiv second)) (A.div (A.ofInt (d.tmod second)) (A.lit (10 ^ 9)))

structure Summary where
  period : String
  rowCount : ℤ
  fleetServerCount : ℤ
  avgCPU : F64
  peakCPU : F64
  avgMem : F64
  peakMem : F64
  minDiskFreeGB : F64
  cpuCores : ℤ
  memTotalGB : F64
  diskTotalGB : F64
  totalNetSentBytes : ℕ
  totalNetRecvBytes : ℕ
  minDiskIOPS : F64
  avgDiskIOPS : F64
  peakDiskIOPS : F64
  minNetMBps : F64
  avgNetMBps : F64
  peakNetMBps : F64
  minConcurrentUsers : ℤ
  avgConcurrentUsers : F64
  maxConcurrentUsers : ℤ
  suggestedMinCPU : ℤ
  suggestedMinRAM : F64
  suggestedMinDiskGB : F64
  suggestedMinIOPS : ℤ
  suggestedMinNetMBps : F64
  suggestedRecCPU : ℤ
  suggestedRecRAM : F64
  suggestedRecDiskGB : F64
  suggestedRecIOPS : ℤ
  suggestedRecNetMBps : F64
  deriving DecidableEq

/-- `Summary{Period: period}`. -/
def Summary.zero (period : String) : Summary where
  period := period
  rowCount := 0
  fleetServerCount := 0
  avgCPU := .fin 0
  peakCPU := .fin 0
  avgMem := .fin 0
  peakMem := .fin 0
  minDiskFreeGB := .fin 0
  cpuCores := 0
  memTotalGB := .fin 0
  diskTotalGB := .fin 0
  totalNetSentBytes := 0
  totalNetRecvBytes := 0
  minDiskIOPS := .fin 0
  avgDiskIOPS := .fin 0
  peakDiskIOPS := .fin 0
  minNetMBps := .fin 0
  avgNetMBps := .fin 0
  peakNetMBps := .fin 0
  minConcurrentUsers := 0
  avgConcurrentUsers := .fin 0
  maxConcurrentUsers := 0
  suggestedMinCPU := 0
  suggestedMinRAM := .fin 0
  suggestedMinDiskGB := .fin 0
  suggestedMinIOPS := 0
  suggestedMinNetMBps := .fin 0
  suggestedRecCPU := 0
  suggestedRecRAM := .fin 0
  suggestedRecDiskGB := .fin 0
  suggestedRecIOPS := 0
  suggestedRecNetMBps := .fin 0

structure ServerSummary where
  serverID : String
  hostname : String
  summary : Summary
  deriving DecidableEq

structure AssessmentReport where
  summary : Summary
  start : ℤ
  stop : ℤ
  sampleCount : ℕ
  servers : List ServerSummary
  deriving DecidableEq

/-- `if x > peak { peak = x }`. -/
def F64.peak (peak x : F64) : F64 := if peak.lt x then x else peak

/-- `if x < least { least = x }`. -/
def F64.least (least x : F64) : F64 := if x.lt least then x else least

/-- `if x < floor { x = floor }`. -/
def F64.atLeast (floor x : F64) : F64 := if x.lt floor then floor else x

variable (A : Arith)

/-! ## The suggested sizes -/

/-- `int(x*factor + 0.5)`, at least `floor`. -/
def Arith.sized (x : F64) (factor : ℚ) (floor : ℤ) : ℤ :=
  let n := A.toInt (A.add (A.mul x (A.lit factor)) (A.lit (1 / 2)))
  if n < floor then floor else n

/-- `x*factor`, at least `floor`. -/
def Arith.scaled (x : F64) (factor floor : ℚ) : F64 :=
  F64.atLeast (A.lit floor) (A.mul x (A.lit factor))

def computeSpecSuggestions (s : Summary) (peakCPUCores peakRAMGB peakUsedDiskGB : F64) : Summary :=
  { s with
    suggestedMinCPU := A.sized peakCPUCores (6 / 5) 1
    suggestedRecCPU := A.sized peakCPUCores 2 2
    suggestedMinRAM := A.scaled peakRAMGB (6 / 5) (1 / 4)
    suggestedRecRAM := A.scaled peakRAMGB 2 (1 / 2)
    suggestedMinDiskGB := A.scaled peakUsedDiskGB (6 / 5) 10
    suggestedRecDiskGB := A.scaled peakUsedDiskGB 2 20
    suggestedMinIOPS := A.sized s.peakDiskIOPS (6 / 5) 100
    suggestedRecIOPS := A.sized s.peakDiskIOPS 2 300
    suggestedMinNetMBps := A.scaled s.peakNetMBps (6 / 5) 1
    suggestedRecNetMBps := A.scaled s.peakNetMBps 2 5 }

/-- `(pct / 100.0) * total`. -/
def Arith.share (pct total : F64) : F64 := A.mul (A.div pct (A.lit 100)) total

/-- `diskTotal - minFree`, at least zero. -/
def Arith.usedDisk (diskTotal minFree : F64) : F64 :=
  F64.atLeast (.fin 0) (A.sub diskTotal minFree)

/-! ## One server -/

/-- The traffic between two readings of a counter, which starts at zero after a reset. -/
def netDelta (prev cur : ℕ) : ℕ := if cur ≥ prev then cur - prev else cur

/-- The variables of the loop of `computeServerSummary`. -/
structure Tally where
  s : Summary
  sumCPU : F64
  sumMem : F64
  sumIOPS : F64
  sumNetMBps : F64
  sumUsers : F64
  totalNetSent : ℕ
  totalNetRecv : ℕ
  prev : Option MetricRow

/-- The summary the loop starts from. -/
def Tally.start (first : MetricRow) (count : ℕ) (period : String) : Tally where
  s := { Summary.zero period with
    rowCount := count
    fleetServerCount := 1
    minDiskFreeGB := first.diskFreeGB
    cpuCores := first.cpuCores
    memTotalGB := first.memTotalGB
    diskTotalGB := first.diskTotalGB
    minDiskIOPS := first.diskIOPS
    minNetMBps := first.netMBps
    minConcurrentUsers := first.concurrentUsers }
  sumCPU := .fin 0
  sumMem := .fin 0
  sumIOPS := .fin 0
  sumNetMBps := .fin 0
  sumUsers := .fin 0
  totalNetSent := 0
  totalNetRecv := 0
  prev := none

/-- One turn of the loop. -/
def Tally.add (t : Tally) (r : MetricRow) : Tally where
  s := { t.s with
    peakCPU := t.s.peakCPU.peak r.cpuPct
    peakMem := t.s.peakMem.peak r.memPct
    minDiskFreeGB := t.s.minDiskFreeGB.least r.diskFreeGB
    minDiskIOPS := t.s.minDiskIOPS.least r.diskIOPS
    peakDiskIOPS := t.s.peakDiskIOPS.peak r.diskIOPS
    minNetMBps := t.s.minNetMBps.least r.netMBps
    peakNetMBps := t.s.peakNetMBps.peak r.netMBps
    minConcurrentUsers := min t.s.minConcurrentUsers r.concurrentUsers
    maxConcurrentUsers := max t.s.maxConcurrentUsers r.concurrentUsers }
  sumCPU := A.add t.sumCPU r.cpuPct
  sumMem := A.add t.sumMem r.memPct
  sumIOPS := A.add t.sumIOPS r.diskIOPS
  sumNetMBps := A.add t.sumNetMBps r.netMBps
  sumUsers := A.add t.sumUsers (A.ofInt r.concurrentUsers)
  totalNetSent := match t.prev with
    | none => t.totalNetSent
    | some p => (t.totalNetSent + netDelta p.netSentBytes r.netSentBytes) % 2 ^ 64
  totalNetRecv := match t.prev with
    | none => t.totalNetRecv
    | some p => (t.totalNetRecv + netDelta p.netRecvBytes r.netRecvBytes) % 2 ^ 64
  prev := some r

/-- The averages and totals after the loop. -/
def Tally.finish (t : Tally) : Summary :=
  let n := A.ofInt t.s.rowCount
  let s := { t.s with
    avgCPU := A.div t.sumCPU n
    avgMem := A.div t.sumMem n
    avgDiskIOPS := A.div t.sumIOPS n
    avgNetMBps := A.div t.sumNetMBps n
    avgConcurrentUsers := A.div t.sumUsers n
    totalNetSentBytes := t.totalNetSent
    totalNetRecvBytes := t.totalNetRecv }
  computeSpecSuggestions A s (A.share s.peakCPU (A.ofInt s.cpuCores))
    (A.share s.peakMem s.memTotalGB) (A.usedDisk s.diskTotalGB s.minDiskFreeGB)

def computeServerSummary (rows : List MetricRow) (period : String) : Summary :=
  match rows with
  | [] => { Summary.zero period with fleetServerCount := 1 }
  | first :: _ => (rows.foldl (Tally.add A) (Tally.start first rows.length period)).finish A

/-! ## The fleet -/

def MetricRow.serverKey (r : MetricRow) : String :=
  if r.serverID = "" then r.hostname else r.serverID

/-- The row joins the rows of its server, or opens them. -/
def addToServer (groups : List (String × List MetricRow)) (r : MetricRow) :
    List (String × List MetricRow) :=
  if groups.any (·.1 = r.serverKey) then
    Table.update (·.1 = r.serverKey) (fun g => (g.1, g.2 ++ [r])) groups
  else groups ++ [(r.serverKey, [r])]

def serverSummary (period key : String) (rows : List MetricRow) : ServerSummary where
  serverID := match rows with
    | [] => key
    | r :: _ => if r.serverID = "" then key else r.serverID
  hostname := match rows with
    | [] => key
    | r :: _ => if r.hostname = "" then key else r.hostname
  summary := computeServerSummary A rows period

def computePerServerSummaries (rows : List MetricRow) (period : String) : List ServerSummary :=
  (rows.foldl addToServer []).map fun g => serverSummary A period g.1 g.2

/-- The variables of the loop of `AggregateFleetSummary`. -/
structure Fleet where
  fleet : Summary
  peakCPUCores : F64
  avgCPUCores : F64
  peakUsedRAMGB : F64
  avgUsedRAMGB : F64
  peakUsedDiskGB : F64

/-- One turn of the loop. -/
def Fleet.add (f : Fleet) (s : Summary) : Fleet where
  fleet := { f.fleet with
    rowCount := f.fleet.rowCount + s.rowCount
    cpuCores := f.fleet.cpuCores + s.cpuCores
    memTotalGB := A.add f.fleet.memTotalGB s.memTotalGB
    diskTotalGB := A.add f.fleet.diskTotalGB s.diskTotalGB
    minDiskFreeGB := A.add f.fleet.minDiskFreeGB s.minDiskFreeGB
    minDiskIOPS := A.add f.fleet.minDiskIOPS s.minDiskIOPS
    avgDiskIOPS := A.add f.fleet.avgDiskIOPS s.avgDiskIOPS
    peakDiskIOPS := A.add f.fleet.peakDiskIOPS s.peakDiskIOPS
    minNetMBps := A.add f.fleet.minNetMBps s.minNetMBps
    avgNetMBps := A.add f.fleet.avgNetMBps s.avgNetMBps
    peakNetMBps := A.add f.fleet.peakNetMBps s.peakNetMBps
    totalNetSentBytes := (f.fleet.totalNetSentBytes + s.totalNetSentBytes) % 2 ^ 64
    totalNetRecvBytes := (f.fleet.totalNetRecvBytes + s.totalNetRecvBytes) % 2 ^ 64
    minConcurrentUsers := f.fleet.minConcurrentUsers + s.minConcurrentUsers
    maxConcurrentUsers := f.fleet.maxConcurrentUsers + s.maxConcurrentUsers
    avgConcurrentUsers := A.add f.fleet.avgConcurrentUsers s.avgConcurrentUsers }
  peakCPUCores := A.add f.peakCPUCores (A.share s.peakCPU (A.ofInt s.cpuCores))
  avgCPUCores := A.add f.avgCPUCores (A.share s.avgCPU (A.ofInt s.cpuCores))
  peakUsedRAMGB := A.add f.peakUsedRAMGB (A.share s.peakMem s.memTotalGB)
  avgUsedRAMGB := A.add f.avgUsedRAMGB (A.share s.avgMem s.memTotalGB)
  peakUsedDiskGB := A.add f.peakUsedDiskGB (A.usedDisk s.diskTotalGB s.minDiskFreeGB)

/-- `part / whole * 100.0`. -/
def Arith.percent (part whole : F64) : F64 := A.mul (A.div part whole) (A.lit 100)

/-- The percentages of the whole fleet and its suggested sizes. -/
def Fleet.finish (f : Fleet) : Summary :=
  let s := f.fleet
  let s := if s.cpuCores > 0 then
      { s with
        peakCPU := A.percent f.peakCPUCores (A.ofInt s.cpuCores)
        avgCPU := A.percent f.avgCPUCores (A.ofInt s.cpuCores) }
    else s
  let s := if (F64.fin 0).lt s.memTotalGB then
      { s with
        peakMem := A.percent f.peakUsedRAMGB s.memTotalGB
        avgMem := A.percent f.avgUsedRAMGB s.memTotalGB }
    else s
  computeSpecSuggestions A s f.peakCPUCores f.peakUsedRAMGB f.peakUsedDiskGB

def aggregateFleetSummary (servers : List ServerSummary) (period : String) : Summary :=
  match servers with
  | [] => .zero period
  | [sv] => { sv.summary with fleetServerCount := 1 }
  | _ =>
    let start : Fleet := ⟨{ Summary.zero period with fleetServerCount := servers.length },
      .fin 0, .fin 0, .fin 0, .fin 0, .fin 0⟩
    (servers.foldl (fun f sv => f.add A sv.summary) start).finish A

def computeSummary (rows : List MetricRow) (period : String) : Summary :=
  aggregateFleetSummary A (computePerServerSummaries A rows period) period

/-! ## The reports -/

def periodText (start stop : ℤ) : String := formatMinute start ++ " to " ++ formatMinute stop

/-- The rows `GenerateAssessmentReport` works on. -/
def assessedRows (start stop : ℤ) (tenantID : String) (db : HubDB) :
    Except StoreError (List MetricRow) := do
  let rows ← db.queryMetrics start tenantID
  return rows.filter (·.timestamp ≤ stop)

/-- The report `GenerateAssessmentReport` makes of its rows. -/
def assessment (start stop : ℤ) (rows : List MetricRow) : AssessmentReport :=
  let servers := computePerServerSummaries A rows (periodText start stop)
  ⟨aggregateFleetSummary A servers (periodText start stop), start, stop, rows.length, servers⟩

def generateAssessmentReport (start stop : ℤ) (tenantID : String) (db : HubDB) :
    Except StoreError AssessmentReport := do
  if !requireTenant tenantID then throw .tenantRequired
  let rows ← assessedRows start stop tenantID db
  return assessment A start stop rows

/-- The summary and the rows `writeCSV` writes at `now`. -/
def writeCSV (since now : ℤ) (tenantID : String) (db : HubDB) :
    Except StoreError (Summary × List MetricRow) := do
  if !requireTenant tenantID then throw .tenantRequired
  let rows ← db.queryMetrics since tenantID
  return (computeSummary A rows (periodText since now), rows)

/-- The summary `TextReport` writes at `now`. -/
def textReport (since now : ℤ) (tenantID : String) (db : HubDB) : Except StoreError Summary := do
  if !requireTenant tenantID then throw .tenantRequired
  let rows ← db.queryMetrics since tenantID
  return computeSummary A rows (periodText since now)

end WMonitor
