import WMonitor.Store

/-!
# Pages of a read

`server/read_page.go` and the reads of `handleMetrics` and `handleProcesses` in
`server/server.go`: a request names a limit and the cursor of the page before, and the answer
holds the rows of one page with the cursor of the next. A cursor is the text `unix:id` of the last
row. The points of the answer are the rows without their id and tenant; the model keeps the rows.
-/

namespace WMonitor

structure ReadPage where
  limit : ℤ
  afterUnix : ℤ
  afterID : ℤ
  deriving DecidableEq

/-- The limit of the request, `defaultQueryLimit` when it names none. -/
def parseLimit (limit : String) : Except String ℤ :=
  let raw := trimSpace limit.toList
  if raw = [] then .ok defaultQueryLimit
  else match atoi raw with
    | none => .error "limit must be 1..100000"
    | some n =>
      if n < 1 ∨ n > defaultQueryLimit then .error "limit must be 1..100000" else .ok n

/-- The time and id in the cursor of the request, zero when it has none. -/
def parseCursor (cursor : String) : Except String (ℤ × ℤ) :=
  let cursor := trimSpace cursor.toList
  if cursor = [] then .ok (0, 0)
  else match cut ':' cursor with
    | none => .error "cursor must be unix:id"
    | some (unixStr, idStr) =>
      if unixStr = [] ∨ idStr = [] then .error "cursor must be unix:id"
      else match atoi unixStr with
        | none => .error "invalid cursor timestamp"
        | some unix =>
          match atoi idStr with
          | none => .error "invalid cursor id"
          | some id => if id < 1 then .error "invalid cursor id" else .ok (unix, id)

def parseReadPage (limit cursor : String) : Except String ReadPage := do
  let limit ← parseLimit limit
  let (unix, id) ← parseCursor cursor
  return ⟨limit, unix, id⟩

/-- The cursor behind a page whose last row is at `unix` with `id`, and whether nothing follows. -/
def nextReadCursor (unix id : ℤ) (count : ℕ) (limit : ℤ) : String × Bool :=
  let complete : Bool := count < limit
  if complete || id < 1 then ("", complete)
  else (String.ofList (itoa unix ++ ':' :: itoa id), false)

/-- An answer with the rows of one page. -/
structure Page (α : Type) where
  rows : List α
  nextCursor : String
  complete : Bool
  deriving DecidableEq

inductive PageError where
  | badRequest (text : String)
  | unavailable (text : String)
  deriving DecidableEq

/-- The window, tenant and server a page is read for. -/
structure Scope where
  since : ℤ
  untilTime : ℤ
  tenantID : String
  serverID : String
  deriving DecidableEq

def Scope.query (s : Scope) (p : ReadPage) : MetricQuery :=
  ⟨s.since, s.untilTime, s.tenantID, s.serverID, p.limit, p.afterUnix, p.afterID⟩

/-- What the handlers of the two tables share: the query, a row's time and id, and the text of a
failed query. -/
structure PageSource (α : Type) where
  query : MetricQuery → HubDB → Except StoreError (List α)
  timestamp : α → ℤ
  id : α → ℤ
  failure : String

def metricPages : PageSource MetricRow :=
  ⟨HubDB.queryMetricsQ, (·.timestamp), (·.id), "metric query unavailable"⟩

def processPages : PageSource ProcessRow :=
  ⟨HubDB.queryProcessesQ, (·.timestamp), (·.id), "process query unavailable"⟩

/-- One page for the parameters `limit` and `cursor` of a request. -/
def PageSource.page {α : Type} (S : PageSource α) (scope : Scope) (limit cursor : String)
    (db : HubDB) : Except PageError (Page α) :=
  match parseReadPage limit cursor with
  | .error text => .error (.badRequest text)
  | .ok page =>
    match S.query (scope.query page) db with
    | .error _ => .error (.unavailable S.failure)
    | .ok rows =>
      match rows.getLast? with
      | none => .ok ⟨rows, "", true⟩
      | some last =>
        let (next, complete) :=
          nextReadCursor (unix (S.timestamp last)) (S.id last) rows.length page.limit
        .ok ⟨rows, next, complete⟩

def parseRange (value : String) : ℤ :=
  if value = "7d" then 7 * 24 * hour
  else if value = "30d" then 30 * 24 * hour
  else 24 * hour

/-- The scope of a request for `range` at `now`, whose window ends when it is read. -/
def rangeScope (range : String) (now readAt : ℤ) (tenantID serverID : String) : Scope :=
  let range := if range = "" then "24h" else range
  ⟨now - parseRange range, readAt, tenantID, serverID⟩

/-- The page `handleMetrics` answers with. -/
def handleMetrics (range serverID limit cursor tenant : String) (now readAt : ℤ) (db : HubDB) :
    Except PageError (Page MetricRow) :=
  metricPages.page (rangeScope range now readAt tenant serverID) limit cursor db

/-- The page `handleProcesses` answers with. -/
def handleProcesses (range serverID limit cursor tenant : String) (now readAt : ℤ) (db : HubDB) :
    Except PageError (Page ProcessRow) :=
  processPages.page (rangeScope range now readAt tenant serverID) limit cursor db

end WMonitor
