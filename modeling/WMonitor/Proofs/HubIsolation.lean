import WMonitor.HubAPI
import WMonitor.Proofs.Delivery
import WMonitor.Proofs.ProgSteps
import WMonitor.Proofs.Tenants

/-!
# Handlers see their own tenant

The Hub gives every handler all of its tables. A handler that was shown only what there is of the tenant
of its caller, and whose changes to other tenants were dropped, would do the same, step by step
(`serve_own`): its query selects rows of the tenant alone, whatever the parameters of the request, its
batch is inserted for the tenant, and who asks for more was authenticated as a platform administrator
(`authPrincipal_permits`). So every run of the Hub is one of a Hub that keeps its tenants apart
(`runs_isolated`).
-/

namespace WMonitor

/-! ## What there is of a tenant -/

def Database.only (tenant : String) (db : Database) : Database where
  hub := { db.hub with
    metrics := db.hub.metrics.filter (·.row.tenantID = tenant)
    processes := db.hub.processes.filter (·.row.tenantID = tenant)
    receipts := db.hub.receipts.filter (·.tenantID = tenant)
    budgets := db.hub.budgets.filter (·.tenantID = tenant) }
  credentials := { db.credentials with
    apiKeys := db.credentials.apiKeys.filter (·.tenantID = tenant)
    handshakes := db.credentials.handshakes.filter (·.tenantID = tenant) }
  audit := db.audit.filter (·.row.tenantID = tenant)
  lastAuditID := db.lastAuditID

/-- What there is of one tenant. -/
def View.only (tenant : String) (v : View) : View where
  db := v.db.only tenant
  active := v.active.filter (·.tenantID = tenant)
  history := v.history.filter (·.tenantID = tenant)

/-- The part of the caller's tenant. A platform administrator has the credentials and the audit of all of
them, but no other rows. No credential is without a tenant. -/
def ownView (p : Principal) (v : View) : View :=
  if p.permits scopeAdmin = true ∨ p.tenantID = "" then
    { v.only p.tenantID with db := { v.db with hub := (v.db.only p.tenantID).hub } }
  else v.only p.tenantID

/-- A change of the rows of one tenant, and of no credential. -/
structure Database.ChangesOnly (tenant : String) (db db' : Database) : Prop where
  hub : ∀ t, tenant ≠ t → Elsewhere t db.hub db'.hub
  audit : ∀ t, tenant ≠ t →
    db'.audit.filter (·.row.tenantID = t) = db.audit.filter (·.row.tenantID = t)
  credentials : db'.credentials = db.credentials

open Classical in
/-- A change that goes beyond the caller's tenant is dropped, unless it is a platform administrator's. -/
noncomputable def ownChange (p : Principal) (db db' : Database) : Database :=
  if p.permits scopeAdmin = true ∨ db.ChangesOnly p.tenantID db' then db' else db

/-- The access of a Hub that keeps its tenants apart. -/
noncomputable def Access.own : Access := ⟨ownView, ownChange⟩

/-! ## Reads of the part of a tenant -/

/-- A read for a tenant selects from the rows of the tenant. -/
theorem Columns.select_part {α : Type} (C : Columns α) {q : MetricQuery} (rows : List (Stored α)) :
    C.select q false (rows.filter fun r => C.tenantID r.row = q.tenantID) = C.select q false rows := by
  have hpart : ∀ r, C.meets q false r = true → decide (C.tenantID r.row = q.tenantID) = true :=
    fun r hr => decide_eq_true (C.meets_own hr)
  unfold Columns.select Columns.ordered
  rw [Table.filter_part hpart]

/-- A source of pages that selects from the rows of the tenant. -/
def PageSource.Tenanted {α : Type} (S : PageSource α) : Prop :=
  ∀ q db, S.query q (Database.only q.tenantID db).hub = S.query q db.hub

theorem metricPages_tenanted : metricPages.Tenanted := by
  intro q db
  have hsame : (Database.only q.tenantID db).hub.selectMetrics q false = db.hub.selectMetrics q false :=
    congrArg (List.map scanMetric) (metricColumns.select_part db.hub.metrics)
  simp only [metricPages, HubDB.queryMetricsQ, hsame]

theorem processPages_tenanted : processPages.Tenanted := by
  intro q db
  have hsame : processColumns.select q false (Database.only q.tenantID db).hub.processes
      = processColumns.select q false db.hub.processes :=
    processColumns.select_part db.hub.processes
  simp only [processPages, HubDB.queryProcessesQ, hsame]

theorem PageSource.Tenanted.page {α : Type} {S : PageSource α} (hS : S.Tenanted) (scope : Scope)
    (limit cursor : String) (db : Database) :
    S.page scope limit cursor (Database.only scope.tenantID db).hub = S.page scope limit cursor db.hub := by
  unfold PageSource.page
  rcases parseReadPage limit cursor with text | page
  · rfl
  · have hquery : S.query (scope.query page) (Database.only scope.tenantID db).hub
        = S.query (scope.query page) db.hub := hS (scope.query page) db
    simp only [hquery]

theorem queryServersPage_only (tenant : String) (limit : ℤ) (after : String) (db : Database) :
    (db.only tenant).hub.queryServersPage tenant limit after
      = db.hub.queryServersPage tenant limit after := by
  unfold HubDB.queryServersPage Database.only
  dsimp only
  rw [Table.filter_part]
  intro r hr
  simp only [Bool.and_eq_true] at hr
  exact hr.1.1

theorem filterByTenant_part (alerts : List Alert) (tenant : String) :
    filterByTenant (alerts.filter (·.tenantID = tenant)) tenant = filterByTenant alerts tenant := by
  unfold filterByTenant
  rw [Table.filter_part fun _ h => h]

theorem listAgents_only {tenant : String} (ht : tenant ≠ "") (db : Database) :
    (db.only tenant).credentials.listAgents tenant = db.credentials.listAgents tenant := by
  unfold CredentialDB.listAgents Database.only
  dsimp only
  rw [Table.filter_part]
  intro k hk
  simpa [ht] using (Bool.and_eq_true_iff.1 hk).2

theorem listAudit_hub (tenant : String) (limit : ℤ) (db : Database) (hub : HubDB) :
    Database.listAudit tenant limit { db with hub := hub } = db.listAudit tenant limit := rfl

namespace Hub

variable {K : KeyTexts} {W : Wire} {α : Type}

/-! ## Handlers -/

theorem ownView_hub (p : Principal) (v : View) : (ownView p v).db.hub = (v.db.only p.tenantID).hub := by
  unfold ownView
  split_ifs <;> rfl

theorem ownView_active (p : Principal) (v : View) :
    (ownView p v).active = v.active.filter (·.tenantID = p.tenantID) := by
  unfold ownView
  split_ifs <;> rfl

theorem ownView_history (p : Principal) (v : View) :
    (ownView p v).history = v.history.filter (·.tenantID = p.tenantID) := by
  unfold ownView
  split_ifs <;> rfl

/-- A platform administrator has all credentials, and the whole audit. -/
theorem ownView_admin {p : Principal} (h : p.permits scopeAdmin = true) (v : View) :
    (ownView p v).db = { v.db with hub := (v.db.only p.tenantID).hub } := by
  rw [ownView, if_pos (Or.inl h)]

theorem query_own {p : Principal} {failed : Refusal} {f : View → ℤ → Except Refusal α}
    (h : ∀ v, f (ownView p v) = f v) : query .own p failed f = query .full p failed f := by
  unfold query
  simp only [Access.own, Access.full, h]

theorem readPage_own {S : PageSource α} (hS : S.Tenanted) (p : Principal) (r : APIRequest) :
    readPage .own S p r = readPage .full S p r := by
  unfold readPage
  refine bind_congr fun _ => bind_congr fun now => query_own fun v => ?_
  funext readAt
  rw [ownView_hub]
  exact congrArg pageReply
    (hS.page (rangeScope r.range now readAt p.tenantID r.serverID) r.limit r.cursor v.db)

theorem handleMetrics_own (r : APIRequest) : handleMetrics K .own r = handleMetrics K .full r := by
  simp only [handleMetrics, readPage_own metricPages_tenanted]

theorem handleProcesses_own (r : APIRequest) :
    handleProcesses K .own r = handleProcesses K .full r := by
  simp only [handleProcesses, readPage_own processPages_tenanted]

theorem handleExportCSV_own (r : APIRequest) :
    handleExportCSV K .own r = handleExportCSV K .full r := by
  have htenanted : exportPages.Tenanted := metricPages_tenanted
  simp only [handleExportCSV, readPage_own htenanted]

theorem handleServers_own (r : APIRequest) : handleServers K .own r = handleServers K .full r := by
  unfold handleServers
  congr 1
  funext p
  refine bind_congr fun page => query_own fun v => ?_
  funext _
  rw [ownView_hub, queryServersPage_only]

theorem handleAlerts_own (r : APIRequest) : handleAlerts K .own r = handleAlerts K .full r := by
  simp only [handleAlerts, Access.own, Access.full, ownView_active, ownView_history, filterByTenant_part]

/-- Who is no platform administrator gets the agents of their own tenant. -/
theorem listTenant_own {p : Principal} (h : p.permits scopeAdmin = false) (tenantQuery : String) :
    listTenant p tenantQuery = p.tenantID := by
  unfold listTenant
  rw [if_neg]
  rintro ⟨hkind, hscope⟩
  rw [Principal.permits, hkind, hscope] at h
  exact absurd h (by decide)

theorem listAgents_own (p : Principal) (r : APIRequest) : listAgents .own p r = listAgents .full p r := by
  refine query_own fun v => ?_
  funext _
  unfold ownView
  split_ifs with hall
  · rfl
  · rw [not_or, Bool.not_eq_true] at hall
    have hsame : (v.only p.tenantID).db.credentials.listAgents p.tenantID
        = v.db.credentials.listAgents p.tenantID := listAgents_only hall.2 v.db
    rw [listTenant_own hall.1, hsame]

/-! ## Handlers for platform administrators -/

theorem permitted_permits (p : Principal) (scope : String) :
    (permitted p scope).Gives (·.permits scope = true) := by
  unfold permitted Prog.failIf
  split_ifs with h
  · exact trivial
  · exact Bool.eq_true_of_not_eq_false h

theorem resolveKey_permits (hash : String) (epoch : ℤ) (scope : String) :
    (resolveKey hash epoch scope).Gives (·.permits scope = true) := by
  refine Prog.Gives.bind fun resolved => ?_
  split
  · exact Prog.Gives.bind fun _ => Prog.Gives.bind fun _ => trivial
  · exact trivial
  · exact Prog.Gives.bind fun _ => Prog.Gives.bind fun _ => permitted_permits _ _

/-- Whoever is authenticated for a scope has it. -/
theorem authPrincipal_permits (r : APIRequest) (scope : String) :
    (authPrincipal K r scope).Gives (·.permits scope = true) := by
  refine Prog.Gives.bind fun _ => Prog.Gives.bind fun _ => ?_
  split_ifs
  · refine Prog.Gives.bind fun session => ?_
    cases session with
    | none => exact trivial
    | some ent => exact permitted_permits _ _
  · refine Prog.Gives.bind fun epoch => Prog.Gives.bind fun cached => ?_
    cases cached with
    | none => exact resolveKey_permits _ _ _
    | some entry => exact Prog.Gives.bind fun _ => permitted_permits _ _

theorem handleAdminClients_own (r : APIRequest) :
    handleAdminClients K .own r = handleAdminClients K .full r := by
  refine (authPrincipal_permits _ _).bind_congr fun p hp => query_own fun v => ?_
  rw [ownView_admin hp]

theorem handleAdminAudit_own (r : APIRequest) :
    handleAdminAudit K .own r = handleAdminAudit K .full r := by
  unfold handleAdminAudit
  refine bind_congr fun _ => (authPrincipal_permits _ _).bind_congr fun p hp => bind_congr fun _ => ?_
  refine query_own fun v => ?_
  rw [ownView_admin hp, listAudit_hub]

theorem handleExpectedAgents_own (r : APIRequest) :
    handleExpectedAgents K .own r = handleExpectedAgents K .full r := by
  unfold handleExpectedAgents
  refine bind_congr fun _ => (authPrincipal_permits _ _).bind_congr fun p hp => bind_congr fun _ => ?_
  refine query_own fun v => ?_
  rw [ownView_admin hp]

/-! ## Changes -/

theorem keep_admin {p : Principal} (h : p.permits scopeAdmin = true) (db db' : Database) :
    Access.own.keep p db db' = db' :=
  if_pos (.inl h)

theorem keep_own {p : Principal} {db db' : Database} (h : db.ChangesOnly p.tenantID db') :
    Access.own.keep p db db' = db' :=
  if_pos (.inr h)

theorem appendAudit_changesOnly (e : AuditEvent) (now : ℤ) (db : Database) :
    db.ChangesOnly e.tenantID (db.appendAudit e now).1 := by
  unfold Database.appendAudit
  split
  · exact ⟨fun _ _ => .refl _, fun _ _ => rfl, rfl⟩
  · refine ⟨fun _ _ => .refl _, fun t ht => ?_, rfl⟩
    simp [AuditEvent.record, ht]

theorem recordAudit_own {p : Principal} {e : AuditEvent}
    (h : p.permits scopeAdmin = true ∨ e.tenantID = p.tenantID) :
    recordAudit .own p e = recordAudit .full p e := by
  have hkeep : ∀ (db : Database) (now : ℤ),
      Access.own.keep p db (db.appendAudit e now).1 = (db.appendAudit e now).1 := by
    intro db now
    rcases h with h | h
    · exact keep_admin h _ _
    · exact keep_own (h ▸ appendAudit_changesOnly e now db)
  simp only [recordAudit, hkeep, Access.full]

theorem revokeAgent_own {p : Principal} (h : p.permits scopeAdmin = true) (tenant server : String) :
    revokeAgent .own p tenant server = revokeAgent .full p tenant server := by
  simp only [revokeAgent, keep_admin h, Access.full]

theorem revokeAgents_own (p : Principal) (r : APIRequest) : revokeAgents .own p r = revokeAgents .full p r := by
  by_cases h : p.permits scopeAdmin = true
  · simp only [revokeAgents, revokeAgent_own h, recordAudit_own (.inl h)]
  · rw [Bool.not_eq_true] at h
    unfold revokeAgents Prog.failIf
    rw [if_pos h]
    rfl

theorem handleAdminAgents_own (r : APIRequest) :
    handleAdminAgents K .own r = handleAdminAgents K .full r := by
  simp only [handleAdminAgents, listAgents_own, revokeAgents_own]

/-- A request changes nothing of other tenants than that of its principal. -/
theorem receiveBatch_changesOnly {rc : Reception} {p : Principal} (hauth : rc.auth = .ok p)
    (req : IngestRequest) (db : Database) :
    db.ChangesOnly p.tenantID { db with hub := (WMonitor.receiveBatch W rc req db.hub).1 } := by
  refine ⟨fun t ht => ?_, fun _ _ => rfl, rfl⟩
  rcases receiveBatch_reaches W rc req db.hub hauth with ⟨batch, hreaches⟩ | ⟨hsame, -⟩
  · rw [hreaches.receive]
    unfold Reception.accept
    rcases rc.fault with _ | _ | _
    · exact acceptIngest_elsewhere W.toEventCodec ht db.hub
    · exact .refl db.hub
    · exact acceptIngest_elsewhere W.toEventCodec ht db.hub
  · rw [hsame]
    exact .refl db.hub

theorem receiveBatch_own (r : APIRequest) (req : IngestRequest) :
    receiveBatch K W .own r req = receiveBatch K W .full r req := by
  have hkeep : ∀ (p : Principal) (now : ℤ) (c : Moment) (req : IngestRequest) (db : Database),
      Access.own.keep p db { db with hub := (WMonitor.receiveBatch W (reception p now c) req db.hub).1 }
        = { db with hub := (WMonitor.receiveBatch W (reception p now c) req db.hub).1 } :=
    fun p now c req db => keep_own (receiveBatch_changesOnly rfl req db)
  simp only [receiveBatch, hkeep, Access.full]

/-! ## Sessions -/

theorem openSession_own (r : APIRequest) (token : String) (rec : APIKeyRecord) :
    openSession K .own r token rec = openSession K .full r token rec := by
  have haudit := recordAudit_own (p := principalFromRecord rec)
    (e := ⟨zeroTime, rec.tenantID, rec.kind, rec.keyPrefix, "session.login", "session", "browser"⟩)
    (.inr rfl)
  simp only [openSession, haudit]

theorem auditLogout_own (found : Option SessionEntry) :
    auditLogout .own found = auditLogout .full found := by
  cases found with
  | none => rfl
  | some ent => exact bind_congr fun actor => recordAudit_own (.inr rfl)

theorem handleSession_own (r : APIRequest) (body : Option Server.SessionBody) :
    handleSession K .own r body = handleSession K .full r body := by
  simp only [handleSession, login, logout, openSession_own, auditLogout_own]

/-! ## Runs -/

theorem serve_own (call : HubCall) : serve K W .own call = serve K W .full call := by
  cases call with
  | metrics r => exact handleMetrics_own r
  | processes r => exact handleProcesses_own r
  | servers r => exact handleServers_own r
  | csv r => exact handleExportCSV_own r
  | alerts r => exact handleAlerts_own r
  | agents r => exact handleAdminAgents_own r
  | clients r => exact handleAdminClients_own r
  | audit r => exact handleAdminAudit_own r
  | expected r => exact handleExpectedAgents_own r
  | ingest r req => exact receiveBatch_own r req
  | session r body => exact handleSession_own r body

theorem service_own : service K W .own = service K W .full := by
  simp only [service, serve_own]

end Hub

end WMonitor
