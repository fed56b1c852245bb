import WMonitor.Ingest
import WMonitor.Transactions

/-!
# Ingestion on Postgres

`AcceptIngest` of `storage/ingest.go` as the Postgres backend runs it: any number of Hub instances and
requests have a transaction open on the same tables, each of whose statements is on its own. The
isolation is "read committed", the default of `pool.Begin`. An `INSERT … ON CONFLICT DO NOTHING` waits for
an open transaction that has inserted a row with the same key, unless the table has such a row already;
an `UPDATE` waits for one that has changed a row it is about to change.

Row ids come from sequences outside the transactions and are left out, as is `CleanupIngest`.
-/

namespace WMonitor

structure IngestTables where
  receipts : List Receipt
  budgets : List Budget
  metrics : List MetricRecord
  processes : List ProcessRecord
  deriving DecidableEq

/-- The tables without the ids of their rows. -/
def HubDB.tables (db : HubDB) : IngestTables :=
  ⟨db.receipts, db.budgets, db.metrics.map (·.row), db.processes.map (·.row)⟩

/-- What a statement changes. -/
inductive IngestChange where
  | receipt (r : Receipt)
  | budget (tenant actor : String) (day : ℤ)
  | charge (tenant actor : String) (day rows bytes : ℤ) (size : ℕ)
  | metric (r : MetricRecord)
  | process (r : ProcessRecord)
  deriving DecidableEq

/-- The row of `ingest_budgets` that was inserted or updated. -/
def IngestChange.budgetKey : IngestChange → Option (String × String × ℤ)
  | .budget tenant actor day => some (tenant, actor, day)
  | .charge tenant actor day _ _ _ => some (tenant, actor, day)
  | _ => none

namespace IngestTables

def apply (t : IngestTables) : IngestChange → IngestTables
  | .receipt r => { t with receipts := t.receipts ++ [r] }
  | .budget tenant actor day => { t with budgets := t.budgets ++ [⟨tenant, actor, day, 0, 0⟩] }
  | .charge tenant actor day rows bytes size =>
    let room := HubDB.fits tenant actor day rows bytes size
    { t with budgets := Table.update room (·.add size) t.budgets }
  | .metric r => { t with metrics := t.metrics ++ [r] }
  | .process r => { t with processes := t.processes ++ [r] }

/-- A receipt with the primary key or the unique index of another. -/
def hasReceipt (t : IngestTables) (r : Receipt) : Bool := t.receipts.any r.clash

def hasBudget (t : IngestTables) (k : String × String × ℤ) : Bool :=
  t.budgets.any fun b => b.key = k

end IngestTables

namespace PgIngest

abbrev IngestTx : Type 1 := Tx IngestTables IngestChange IngestError (List IngestOutcome)

/-! ## Statements -/

/-- `INSERT INTO ingest_receipts … ON CONFLICT DO NOTHING`: the number of rows. -/
def insertReceipt (r : Receipt) (k : ℕ → IngestTx) : IngestTx :=
  let waits (t : IngestTables) : IngestChange → Bool
    | .receipt r' => !t.hasReceipt r && r.clash r'
    | _ => false
  .exec waits (fun t => if t.hasReceipt r then (0, []) else (1, [.receipt r])) k

/-- `SELECT content_hash FROM ingest_receipts`. -/
def selectContentHash (tenant agent eventID : String) (k : Option String → IngestTx) : IngestTx :=
  let select (t : IngestTables) :=
    (Table.lookup Receipt.key (tenant, agent, eventID) t.receipts).map (·.contentHash)
  .exec (fun _ _ => false) (fun t => (select t, [])) k

/-- `INSERT INTO ingest_budgets(tenant_id,actor_id,day) … ON CONFLICT DO NOTHING`. -/
def insertBudget (tenant actor : String) (day : ℤ) (k : IngestTx) : IngestTx :=
  let key := (tenant, actor, day)
  .exec (fun t c => !t.hasBudget key && c.budgetKey = some key)
    (fun t => ((), if t.hasBudget key then [] else [.budget tenant actor day])) fun _ => k

/-- `UPDATE ingest_budgets … WHERE … accepted_rows<$5 AND accepted_bytes<=$6-$1`: the number of rows. -/
def updateBudget (tenant actor : String) (day rows bytes : ℤ) (size : ℕ) (k : ℕ → IngestTx) :
    IngestTx :=
  let count (t : IngestTables) := t.budgets.countP (HubDB.fits tenant actor day rows bytes size)
  .exec (fun t c => count t ≠ 0 && c.budgetKey = some (tenant, actor, day))
    (fun t => (count t, if count t = 0 then [] else [.charge tenant actor day rows bytes size])) k

/-- The insert of the event's row. -/
def insertRow (tenant agent : String) (event : IngestEvent) (k : IngestTx) : IngestTx :=
  match event.metric, event.process with
  | some m, _ =>
    .exec (fun _ _ => false) (fun _ => ((), [.metric (metricRecord tenant agent m)])) fun _ => k
  | none, some p =>
    .exec (fun _ _ => false) (fun _ => ((), [.process (processRecord tenant agent p)])) fun _ => k
  | none, none => .rollback .nilProcess

/-! ## The transaction -/

/-- One turn of the loop over the two budgets. -/
def chargeBudget (tenant actor : String) (day rows bytes : ℤ) (size : ℕ) (k : IngestTx) : IngestTx :=
  insertBudget tenant actor day <| updateBudget tenant actor day rows bytes size fun n =>
    if n ≠ 1 then .rollback .acceptedBudget else k

variable (K : EventCodec)

/-- `acceptIngest`, `out` the outcomes so far. -/
def acceptIngest (tenant agent : String) (policy : IngestPolicy) (now : ℤ) :
    List IngestEvent → List IngestOutcome → IngestTx
  | [], out => .commit out
  | event :: events, out =>
    match K.marshal event with
    | .error text => .rollback (.marshal text)
    | .ok body =>
      insertReceipt (receiptOf K tenant agent now event body) fun n =>
        if n = 0 then
          selectContentHash tenant agent event.eventID fun existing =>
            if existing = some (K.contentHash body) then
              acceptIngest tenant agent policy now events (out ++ [⟨event.eventID, .duplicate⟩])
            else .rollback .eventConflict
        else
          chargeBudget tenant "" (utcDay now) policy.dailyRows policy.dailyBytes body.length <|
          chargeBudget tenant agent (utcDay now) policy.agentDailyRows policy.agentDailyBytes
            body.length <|
          insertRow tenant agent event <|
          acceptIngest tenant agent policy now events (out ++ [⟨event.eventID, .accepted⟩])

/-- A call of `AcceptIngest`, and the Hub's time at it. -/
structure AcceptCall where
  tenant : String
  agent : String
  batch : IngestBatch
  policy : IngestPolicy
  now : ℤ

def AcceptCall.tx (c : AcceptCall) : IngestTx :=
  match normalizeIngest c.batch c.tenant c.agent c.now with
  | .error err => .rollback err
  | .ok batch =>
    match c.policy.validate with
    | .error err => .rollback err
    | .ok () => acceptIngest K c.tenant c.agent c.policy c.now batch.events []

abbrev IngestPool : Type 1 :=
  TxPool IngestTables IngestChange IngestError (List IngestOutcome) AcceptCall

/-- The tables and the calls after a list of turns of any Hub instances. -/
def after (db : HubDB) (turns : List (TxTurn AcceptCall)) : IngestPool :=
  TxPool.after IngestTables.apply (AcceptCall.tx K) db.tables turns

/-- The calls one after the other: the database at the end, and the answers. -/
def oneByOne (db : HubDB) : List AcceptCall → HubDB × List (Except IngestError (List IngestOutcome))
  | [] => (db, [])
  | c :: calls =>
    let r := db.acceptIngest K c.tenant c.agent c.batch c.policy c.now
    let rest := oneByOne r.1 calls
    (rest.1, r.2 :: rest.2)

end PgIngest

end WMonitor
