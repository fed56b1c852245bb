import WMonitor.Report

/-!
# Alerting

`alerting/rules.go`, `alerting/alert.go` and `alerting/evaluator.go`: each pass of the evaluator reads
the recent metrics of all tenants, keeps the newest sample of each server and advances the state of
every enabled rule for it. Both stores are an `AllTenantsQuerier`, and the sinks of the
notifications (`alerting/notify.go`) are left out: a notification is the alert that is sent.

Go iterates over a map in any order. A pass is given the order it takes.
-/

namespace WMonitor

/-- `lookback`. -/
def lookback : ℤ := 15 * minute

inductive AlertState where
  | ok
  | pending
  | firing
  deriving DecidableEq

structure Alert where
  rule : String
  serverID : String
  tenantID : String
  metric : String
  severity : String
  state : AlertState
  value : F64
  threshold : F64
  message : String
  firedAt : ℤ
  resolved : Bool
  deriving DecidableEq

def alertKey (rule tenantID serverID : String) : String :=
  let tenantID := if tenantID = "" then localTenantID else tenantID
  tenantID ++ "\x00" ++ rule ++ "\x00" ++ serverID

/-! ## Rules -/

def greaterThan : String := ">"
def lessThan : String := "<"

def metricCPUPct : String := "cpu_pct"
def metricMemPct : String := "mem_pct"
def metricDiskFreePct : String := "disk_free_pct"
def metricDiskFreeGB : String := "disk_free_gb"
def metricDiskIOPS : String := "disk_iops"
def metricNetMBps : String := "net_mbps"
def metricUsers : String := "concurrent_users"
def metricAgentSilentSec : String := "agent_silent_seconds"

def severityWarning : String := "warning"
def severityCritical : String := "critical"

structure Rule where
  name : String
  metric : String
  comparison : String
  threshold : F64
  forText : String
  severity : String
  enabled : Option Bool
  deriving DecidableEq

namespace Rule

def forDuration (r : Rule) : ℤ :=
  if r.forText = "" then 5 * minute
  else match parseDuration r.forText with
    | none => 5 * minute
    | some d => if d < 0 then 5 * minute else d

def isEnabled (r : Rule) : Bool := r.enabled.getD true

def breached (r : Rule) (value : F64) : Bool :=
  if r.comparison = lessThan then value.lt r.threshold else r.threshold.lt value

def knownMetrics : List String :=
  [metricCPUPct, metricMemPct, metricDiskFreePct, metricDiskFreeGB, metricDiskIOPS, metricNetMBps,
    metricUsers, metricAgentSilentSec]

/-- The text of `%q` is not modelled: the errors name the rule and the value. -/
inductive Invalid where
  | noName
  | unknownMetric (rule metric : String)
  | comparison (rule : String)
  | duration (rule text : String)
  deriving DecidableEq

def validate (r : Rule) : Except Invalid Unit :=
  if r.name = "" then .error .noName
  else if !knownMetrics.contains r.metric then .error (.unknownMetric r.name r.metric)
  else if r.comparison ≠ greaterThan ∧ r.comparison ≠ lessThan then .error (.comparison r.name)
  else if r.forText ≠ "" ∧ parseDuration r.forText = none then .error (.duration r.name r.forText)
  else .ok ()

end Rule

def defaultRules : List Rule :=
  [⟨"High CPU", metricCPUPct, greaterThan, .fin 90, "5m", severityWarning, none⟩,
    ⟨"High Memory", metricMemPct, greaterThan, .fin 90, "5m", severityWarning, none⟩,
    ⟨"Low Disk Space", metricDiskFreePct, lessThan, .fin 10, "5m", severityWarning, none⟩,
    ⟨"Critically Low Disk Space", metricDiskFreePct, lessThan, .fin 5, "1m", severityCritical, none⟩,
    ⟨"Agent Not Reporting", metricAgentSilentSec, greaterThan, .fin 35, "1m", severityCritical,
      none⟩]

inductive RulesError where
  | read (text : String)
  | empty
  | invalid (e : Rule.Invalid)
  deriving DecidableEq

/-- The first rule that is not valid refuses them all. -/
def validateRules : List Rule → Except RulesError Unit
  | [] => .ok ()
  | r :: rs =>
    match r.validate with
    | .error e => .error (.invalid e)
    | .ok () => validateRules rs

/-- `LoadRules`, where `file` is what reading and decoding the file at `path` gives. -/
def loadRules (path : String) (file : Except String (List Rule)) : Except RulesError (List Rule) :=
  if path = "" then .ok defaultRules
  else match file with
    | .error text => .error (.read text)
    | .ok rules =>
      if rules = [] then .error .empty
      else match validateRules rules with
        | .error e => .error e
        | .ok () => .ok rules

/-! ## One rule and one sample -/

variable (A : Arith)

/-- The value of the metric in a sample, unless it has none. -/
def extractMetric (name : String) (row : MetricRow) (now : ℤ) : Option F64 :=
  if name = metricCPUPct then some row.cpuPct
  else if name = metricMemPct then some row.memPct
  else if name = metricDiskFreeGB then some row.diskFreeGB
  else if name = metricDiskFreePct then
    -- the source tests `total <= 0`, which a total that is not a number does not meet
    if row.diskTotalGB.lt (.fin 0) || row.diskTotalGB = .fin 0 then none
    else some (A.mul (A.div row.diskFreeGB row.diskTotalGB) (A.lit 100))
  else if name = metricDiskIOPS then some row.diskIOPS
  else if name = metricNetMBps then some row.netMBps
  else if name = metricUsers then some (A.ofInt row.concurrentUsers)
  else if name = metricAgentSilentSec then some (A.seconds (timeSub now row.timestamp))
  else none

/-- The nearest integer, and the even one of two. -/
def roundEven (q : ℚ) : ℤ :=
  let n := q.floor
  if q - n < 1 / 2 then n
  else if q - n > 1 / 2 then n + 1
  else if n % 2 = 0 then n else n + 1

/-- `%.1f`. -/
def formatTenths : F64 → String
  | .nan => "NaN"
  | .inf neg => if neg then "-Inf" else "+Inf"
  | .fin q =>
    let n := (roundEven (|q| * 10)).toNat
    String.ofList ((if q < 0 then ['-'] else []) ++ Nat.toDigits 10 (n / 10)
      ++ '.' :: Nat.toDigits 10 (n % 10))

def metricUnit (metric : String) : String :=
  if metric = metricCPUPct ∨ metric = metricMemPct ∨ metric = metricDiskFreePct then "%"
  else if metric = metricDiskFreeGB then " GB"
  else if metric = metricAgentSilentSec then "s"
  else ""

def buildAlert (rule : Rule) (row : MetricRow) (value : F64) (now : ℤ) (resolved : Bool) :
    Alert where
  rule := rule.name
  serverID := row.serverID
  tenantID := if row.tenantID = "" then localTenantID else row.tenantID
  metric := rule.metric
  severity := rule.severity
  state := if resolved then .ok else .firing
  value := value
  threshold := rule.threshold
  message :=
    let unit := metricUnit rule.metric
    if resolved then rule.metric ++ " recovered to " ++ formatTenths value ++ unit
    else rule.metric ++ " is " ++ formatTenths value ++ unit ++ " (threshold " ++ rule.comparison
      ++ " " ++ formatTenths rule.threshold ++ unit ++ ")"
  firedAt := now
  resolved := resolved

/-- The state of a rule for a server. -/
structure RuleState where
  state : AlertState
  breachingSince : ℤ
  healthySince : ℤ
  lastAlert : Option Alert
  deriving DecidableEq

/-- `&ruleState{state: StateOK}`. -/
def RuleState.fresh : RuleState := ⟨.ok, zeroTime, zeroTime, none⟩

/-- The `switch` of `evaluateRule`: the next state, and the alert to send. -/
def RuleState.advance (st : RuleState) (rule : Rule) (row : MetricRow) (value : F64) (now : ℤ) :
    RuleState × Option Alert :=
  match rule.breached value, st.state with
  | true, .ok => ({ st with state := .pending, breachingSince := now, healthySince := zeroTime }, none)
  | true, .pending =>
    if timeSub now st.breachingSince ≥ rule.forDuration then
      let alert := buildAlert rule row value now false
      ({ st with state := .firing, lastAlert := some alert }, some alert)
    else (st, none)
  | true, .firing => ({ st with healthySince := zeroTime }, none)
  | false, .pending => ({ st with state := .ok, breachingSince := zeroTime }, none)
  | false, .firing =>
    let st := if st.healthySince = zeroTime then { st with healthySince := now } else st
    if timeSub now st.healthySince ≥ rule.forDuration then
      let alert := buildAlert rule row value now true
      ({ st with state := .ok, breachingSince := zeroTime, lastAlert := some alert }, some alert)
    else (st, none)
  | false, .ok => (st, none)

/-! ## A pass -/

/-- The states of the rules by `alertKey`, and the last alerts. -/
structure Evaluator where
  states : List (String × RuleState)
  history : List Alert
  deriving DecidableEq

def Evaluator.empty : Evaluator := ⟨[], []⟩

namespace Evaluator

/-- The state under the key, a fresh one if there is none yet. -/
def stateOf (e : Evaluator) (key : String) : RuleState :=
  ((Table.lookup (·.1) key e.states).map (·.2)).getD .fresh

def putState (e : Evaluator) (key : String) (st : RuleState) : Evaluator :=
  if e.states.any (·.1 = key) then
    { e with states := Table.update (·.1 = key) (fun _ => (key, st)) e.states }
  else { e with states := e.states ++ [(key, st)] }

def maxHistory : ℕ := 500

/-- The alert joins the history, which keeps the last ones. -/
def record (e : Evaluator) (alert : Alert) : Evaluator :=
  let history := e.history ++ [alert]
  { e with history := history.drop (history.length - maxHistory) }

/-- `evaluateRule`: the evaluator after it, and the alert that was sent. -/
def evaluateRule (e : Evaluator) (rule : Rule) (row : MetricRow) (value : F64) (now : ℤ) :
    Evaluator × Option Alert :=
  let key := alertKey rule.name row.tenantID row.serverID
  let (st, toSend) := (e.stateOf key).advance rule row value now
  let e := e.putState key st
  match toSend with
  | none => (e, none)
  | some alert => (e.record alert, some alert)

/-- The body of the inner loop: nothing for a rule that is off or has no value in the sample. -/
def tryRule (e : Evaluator) (rule : Rule) (row : MetricRow) (now : ℤ) :
    Evaluator × Option Alert :=
  if !rule.isEnabled then (e, none)
  else match extractMetric A rule.metric row now with
    | none => (e, none)
    | some value => e.evaluateRule rule row value now

/-- The inner loop: what each of the rules sent for the sample. -/
def evaluateRow (row : MetricRow) (now : ℤ) :
    List Rule → Evaluator → Evaluator × List (Option Alert)
  | [], e => (e, [])
  | rule :: rules, e =>
    let (e, sent) := e.tryRule A rule row now
    let (e, rest) := evaluateRow row now rules e
    (e, sent :: rest)

/-- The outer loop: what was sent for each of the samples. -/
def evaluateRows (rules : List Rule) (now : ℤ) :
    List MetricRow → Evaluator → Evaluator × List (MetricRow × List (Option Alert))
  | [], e => (e, [])
  | row :: rows, e =>
    let (e, sent) := evaluateRow A row now rules e
    let (e, rest) := evaluateRows rules now rows e
    (e, (row, sent) :: rest)

end Evaluator

def MetricRow.latestKey (m : MetricRow) : String := m.tenantID ++ "\x00" ++ m.serverID

/-- The row takes the place of an older one under its key. -/
def keepNewest (latest : List (String × MetricRow)) (row : MetricRow) :
    List (String × MetricRow) :=
  match Table.lookup (·.1) row.latestKey latest with
  | none => latest ++ [(row.latestKey, row)]
  | some cur =>
    if cur.2.timestamp < row.timestamp then
      Table.update (·.1 = row.latestKey) (fun _ => (row.latestKey, row)) latest
    else latest

/-- The newest sample of each tenant and server in the rows. -/
def latestRows (rows : List MetricRow) : List (String × MetricRow) := rows.foldl keepNewest []

/-- The samples a pass at `now` evaluates. -/
def evaluatedRows (now : ℤ) (db : HubDB) : List MetricRow :=
  (latestRows (db.queryMetricsAllTenants (now - lookback) 0)).map (·.2)

/-- The order in which a pass takes the samples. -/
structure Visit where
  order : List MetricRow → List MetricRow
  perm : ∀ rows, (order rows).Perm rows

/-- `EvaluateOnce`. -/
def Evaluator.evaluateOnce (rules : List Rule) (now : ℤ) (db : HubDB) (visit : Visit)
    (e : Evaluator) : Evaluator × List (MetricRow × List (Option Alert)) :=
  e.evaluateRows A rules now (visit.order (evaluatedRows now db))

def severityRank (s : String) : ℕ :=
  if s = severityCritical then 3 else if s = severityWarning then 2 else 1

/-- `Active`: the alerts that fire, the most severe and then the newest first. -/
def Evaluator.active (e : Evaluator) : List Alert :=
  let firing := (e.states.filter (·.2.state = .firing)).filterMap (·.2.lastAlert)
  firing.insertionSort fun a b =>
    severityRank b.severity < severityRank a.severity
      ∨ (a.severity = b.severity ∧ b.firedAt ≤ a.firedAt)

end WMonitor
