import WMonitor.Report

/-!
# The collector

`collector/collector.go`, `collector/delta.go` and `collector/process.go`: each poll reads what the
operating system reports and makes one row of metrics and the rows of the processes that used the
most CPU since the poll before. A poll is what the calls of `collect` return, one that fails has no
value. The counters of the system are `uint64`, so that their sums wrap around. The counters per
direction that `collect` keeps but never reads are left out.
-/

namespace WMonitor

def topProcessCount : ℕ := 20

/-- `counterDelta`: the increase of a counter, and whether it was reset. -/
def counterDelta (cur prev : UInt64) : UInt64 × Bool :=
  if cur < prev then (0, true) else (cur - prev, false)

/-! ## What the system reports -/

structure Memory where
  usedPercent : F64
  total : UInt64

structure DiskUsage where
  free : UInt64
  total : UInt64

structure DiskCounters where
  readCount : UInt64
  writeCount : UInt64

structure IfaceCounters where
  name : String
  bytesSent : UInt64
  bytesRecv : UInt64

/-- One process of the table: its user and system time, its start, its resident bytes and its
name. -/
structure ProcReading where
  pid : ℤ
  times : Option (F64 × F64)
  createTime : Option ℤ
  memory : Option UInt64
  name : Option String

/-- What one call of `collect` meets. The list of the CPU percentages is empty when they cannot be
read; `stored` says whether `InsertMetric` succeeded; `sort.Slice` leaves rows that compare equal in
the order of `tie`. -/
structure Poll where
  now : ℤ
  cpuPercents : List F64
  memory : Option Memory
  rootUsage : Option DiskUsage
  driveUsage : Option DiskUsage
  diskCounters : Option (List DiskCounters)
  ifaceCounters : Option (List IfaceCounters)
  detectedIface : String
  concurrentUsers : ℤ
  stored : Bool
  processes : Option (List ProcReading)
  tie : List ProcessRow → List ProcessRow
  perm : ∀ rows, (tie rows).Perm rows

/-! ## Processes -/

structure ProcKey where
  pid : ℤ
  createTime : ℤ
  deriving DecidableEq

structure ProcSample where
  cpuSeconds : F64
  sampledAt : ℤ

structure ProcCPUSampler where
  prev : List (ProcKey × ProcSample)
  numCores : ℤ

def newProcCPUSampler (numCores : ℤ) : ProcCPUSampler :=
  ⟨[], if numCores < 1 then 1 else numCores⟩

variable (A : Arith)

def processCPUPercent (curCPUSeconds prevCPUSeconds : F64) (elapsed numCores : ℤ) : F64 :=
  if elapsed ≤ 0 ∨ numCores < 1 then .fin 0
  else
    let deltaCPU := A.sub curCPUSeconds prevCPUSeconds
    if deltaCPU.lt (.fin 0) then .fin 0
    else
      let pct := A.mul (A.div deltaCPU (A.mul (A.seconds elapsed) (A.ofInt numCores))) (A.lit 100)
      if pct.lt (.fin 0) then .fin 0
      else if (F64.fin 100).lt pct then .fin 100
      else pct

namespace ProcCPUSampler

variable (ts : ℤ) (serverID hostname : String) (s : ProcCPUSampler)

/-- One turn of the loop of `sample`, on the samples of this poll and its rows so far. -/
def visit (acc : List (ProcKey × ProcSample) × List ProcessRow) (p : ProcReading) :
    List (ProcKey × ProcSample) × List ProcessRow :=
  match p.times with
  | none => acc
  | some (user, system) =>
    let cpuSeconds := A.add user system
    let key : ProcKey := ⟨p.pid, p.createTime.getD 0⟩
    let current := acc.1.filter (·.1 ≠ key) ++ [(key, ⟨cpuSeconds, ts⟩)]
    match Table.lookup (·.1) key s.prev with
    | none => (current, acc.2)
    | some (_, prev) =>
      match p.memory with
      | none => (current, acc.2)
      | some rss =>
        (current, acc.2 ++ [{
          id := 0
          timestamp := ts
          tenantID := ""
          serverID := serverID
          hostname := hostname
          pid := p.pid
          -- the error of `Name` is dropped
          name := p.name.getD ""
          cpuPct := processCPUPercent A cpuSeconds prev.cpuSeconds (timeSub ts prev.sampledAt)
            s.numCores
          memMB := A.div (A.ofInt rss.toNat) (A.lit (1024 * 1024)) }])

/-- The order of `sort.Slice`. -/
def before (a b : ProcessRow) : Bool :=
  if a.cpuPct ≠ b.cpuPct then b.cpuPct.lt a.cpuPct else b.memMB.lt a.memMB

/-- `sample`. -/
def sample (n : ℕ) (p : Poll) : ProcCPUSampler × List ProcessRow :=
  match p.processes with
  | none => (s, [])
  | some procs =>
    let (current, rows) := procs.foldl (s.visit A ts serverID hostname) ([], [])
    ({ s with prev := current },
      ((p.tie rows).insertionSort fun a b => before b a = false).take n)

end ProcCPUSampler

/-! ## Polls -/

structure Collector where
  serverID : String
  hostname : String
  externalIface : String
  numCores : ℤ
  procSampler : ProcCPUSampler
  prevTime : ℤ
  prevReadOps : UInt64
  prevWriteOps : UInt64
  prevNetSent : UInt64
  prevNetRecv : UInt64

def resolveHostname : Option String → String
  | some h => if h = "" then "localhost" else h
  | none => "localhost"

/-- `NewWithInterval`, then `SetServerID` and `SetExternalIface`. -/
def Collector.new (host : Option String) (counts : Option ℤ) (serverID externalIface : String) :
    Collector :=
  let cores := match counts with
    | some n => if n < 1 then 1 else n
    | none => 1
  ⟨serverID, resolveHostname host, externalIface, cores, newProcCPUSampler cores, zeroTime, 0, 0, 0,
    0⟩

/-- The traffic of all interfaces, and of the external one and the others. -/
structure Traffic where
  sent : UInt64
  recv : UInt64
  extSent : UInt64
  extRecv : UInt64
  intSent : UInt64
  intRecv : UInt64

def Traffic.add (externalIface : String) (t : Traffic) (ifc : IfaceCounters) : Traffic :=
  let t := { t with sent := t.sent + ifc.bytesSent, recv := t.recv + ifc.bytesRecv }
  if ifc.name = externalIface then
    { t with extSent := ifc.bytesSent, extRecv := ifc.bytesRecv }
  else { t with intSent := t.intSent + ifc.bytesSent, intRecv := t.intRecv + ifc.bytesRecv }

/-- The sums over the disks, if their counters can be read. -/
def Poll.diskOps (p : Poll) : Option (UInt64 × UInt64) :=
  p.diskCounters.map fun ds =>
    ds.foldl (fun (acc : UInt64 × UInt64) d => (acc.1 + d.readCount, acc.2 + d.writeCount)) (0, 0)

/-- The sums over the interfaces, if their counters can be read. -/
def Poll.traffic (p : Poll) (externalIface : String) : Option Traffic :=
  p.ifaceCounters.map fun ifcs =>
    let externalIface := if externalIface = "" then p.detectedIface else externalIface
    ifcs.foldl (Traffic.add externalIface) ⟨0, 0, 0, 0, 0, 0⟩

/-- The increase of two counters together, unless one of them was reset. -/
def deltas (cur prev : UInt64 × UInt64) : Option UInt64 :=
  let (delta, reset) := counterDelta cur.1 prev.1
  let (delta', reset') := counterDelta cur.2 prev.2
  if reset || reset' then none else some (delta + delta')

namespace Collector

/-- The IOPS and the MB/s since the poll before. -/
def rates (c : Collector) (now : ℤ) (ops traffic : UInt64 × UInt64) : F64 × F64 :=
  if c.prevTime = zeroTime then (.fin 0, .fin 0)
  else
    let elapsed := A.seconds (timeSub now c.prevTime)
    if !(F64.fin 0).lt elapsed then (.fin 0, .fin 0)
    else
      (match deltas ops (c.prevReadOps, c.prevWriteOps) with
        | none => .fin 0
        | some d => A.div (A.ofInt d.toNat) elapsed,
        match deltas traffic (c.prevNetSent, c.prevNetRecv) with
        | none => .fin 0
        | some d => A.div (A.ofInt d.toNat) (A.mul (A.mul elapsed (A.lit 1024)) (A.lit 1024)))

/-- `float64(n) / (1024 * 1024 * 1024)`. -/
def gigabytes (n : UInt64) : F64 := A.div (A.ofInt n.toNat) (A.lit (1024 * 1024 * 1024))

/-- The row of `collect`. -/
def metric (c : Collector) (p : Poll) : MetricRow :=
  let usage := p.rootUsage <|> p.driveUsage
  -- a failed read leaves the counters of the poll at zero
  let ops := p.diskOps.getD (0, 0)
  let traffic := (p.traffic c.externalIface).getD ⟨0, 0, 0, 0, 0, 0⟩
  let (iops, mbps) := c.rates A p.now ops (traffic.sent, traffic.recv)
  { id := 0
    timestamp := p.now
    tenantID := localTenantID
    serverID := c.serverID
    hostname := c.hostname
    cpuPct := p.cpuPercents.head?.getD (.fin 0)
    memPct := (p.memory.map (·.usedPercent)).getD (.fin 0)
    diskFreeGB := (usage.map fun u => gigabytes A u.free).getD (.fin 0)
    netSentBytes := traffic.sent.toNat
    netRecvBytes := traffic.recv.toNat
    cpuCores := c.numCores
    memTotalGB := (p.memory.map fun m => gigabytes A m.total).getD (.fin 0)
    diskTotalGB := (usage.map fun u => gigabytes A u.total).getD (.fin 0)
    diskReadOps := ops.1.toNat
    diskWriteOps := ops.2.toNat
    diskIOPS := iops
    netMBps := mbps
    concurrentUsers := p.concurrentUsers
    netSentExternal := traffic.extSent.toNat
    netRecvExternal := traffic.extRecv.toNat
    netSentInternal := traffic.intSent.toNat
    netRecvInternal := traffic.intRecv.toNat }

/-- `collect`: the rows it gives to `InsertMetric` and `InsertProcess`. The counters of the poll,
read or not, are what the next poll compares with. -/
def collect (p : Poll) (c : Collector) : Collector × MetricRow × List ProcessRow :=
  let ops := p.diskOps.getD (0, 0)
  let traffic := (p.traffic c.externalIface).getD ⟨0, 0, 0, 0, 0, 0⟩
  let row := c.metric A p
  let c := { c with
    prevTime := p.now
    prevReadOps := ops.1
    prevWriteOps := ops.2
    prevNetSent := traffic.sent
    prevNetRecv := traffic.recv }
  if !p.stored then (c, row, [])
  else
    let (sampler, procs) := c.procSampler.sample A p.now c.serverID c.hostname topProcessCount p
    ({ c with procSampler := sampler }, row, procs)

/-- `prime`, before the first poll. -/
def prime (p : Poll) (c : Collector) : Collector :=
  { c with procSampler := (c.procSampler.sample A p.now "" "" 0 p).1 }

/-- The collector after the polls. -/
def after (c : Collector) (polls : List Poll) : Collector :=
  Run.run (fun c p => (c.collect A p).1) c polls

end Collector

end WMonitor
