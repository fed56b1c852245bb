import WMonitor.Ingest

/-!
# What one ingestion call does

`acceptEvent_cases` says what a turn of the loop can do: find the event's own receipt and change
nothing, or add the receipt, charge the tenant's and the agent's budgets and add the event's row.
A budget is read through `budgetOf`, which is zero where there is no row yet, so that a charge is
an update of one value (`budgetOf_chargeBudget`).
-/

namespace WMonitor

/-! ## Budgets -/

/-- The rows and bytes charged so far under a budget key. -/
def HubDB.budgetOf (db : HubDB) (k : String × String × ℤ) : ℤ × ℤ :=
  match Table.lookup Budget.key k db.budgets with
  | some b => (b.acceptedRows, b.acceptedBytes)
  | none => (0, 0)

/-- The primary key of `ingest_budgets`. -/
def HubDB.BudgetKeys (db : HubDB) : Prop := (db.budgets.map Budget.key).Nodup

namespace HubDB

section Budgets

variable {db db' : HubDB} {tenant actor : String} {day rows bytes : ℤ} {size : ℕ}

theorem ensureBudget_cases (db : HubDB) (tenant actor : String) (day : ℤ) :
    ((∃ b ∈ db.budgets, b.key = (tenant, actor, day)) ∧ db.ensureBudget tenant actor day = db)
    ∨ ((∀ b ∈ db.budgets, b.key ≠ (tenant, actor, day))
      ∧ db.ensureBudget tenant actor day
        = { db with budgets := db.budgets ++ [⟨tenant, actor, day, 0, 0⟩] }) := by
  unfold ensureBudget
  split
  · rename_i bs hbs
    obtain ⟨rfl, hno⟩ := Table.insert_some hbs
    refine .inr ⟨fun b hb hk => ?_, rfl⟩
    have := hno b hb
    simp only [decide_eq_false_iff_not] at this
    exact this hk.symm
  · rename_i hbs
    obtain ⟨b, hb, hk⟩ := Table.insert_none hbs
    simp only [decide_eq_true_eq] at hk
    exact .inl ⟨⟨b, hb, hk.symm⟩, rfl⟩

theorem ensureBudget_keys (tenant actor : String) (day : ℤ) (h : db.BudgetKeys) :
    (db.ensureBudget tenant actor day).BudgetKeys := by
  rcases ensureBudget_cases db tenant actor day with ⟨-, he⟩ | ⟨hno, he⟩
  · rw [he]
    exact h
  · rw [he]
    exact Table.nodup_append h hno

theorem budgetOf_ensureBudget (db : HubDB) (tenant actor : String) (day : ℤ)
    (k : String × String × ℤ) :
    (db.ensureBudget tenant actor day).budgetOf k = db.budgetOf k := by
  rcases ensureBudget_cases db tenant actor day with ⟨-, he⟩ | ⟨hno, he⟩
  · rw [he]
  · rw [he]
    simp only [budgetOf, Table.lookup_append]
    rcases hl : Table.lookup Budget.key k db.budgets with _ | b
    · rw [Option.none_or]
      split_ifs <;> rfl
    · rfl

theorem fits_key {b : Budget} (h : fits tenant actor day rows bytes size b = true) :
    b.key = (tenant, actor, day) ∧ b.acceptedRows < rows ∧ b.acceptedBytes ≤ bytes - size := by
  simp only [fits, Bool.and_eq_true, decide_eq_true_eq] at h
  obtain ⟨⟨⟨⟨h1, h2⟩, h3⟩, h4⟩, h5⟩ := h
  exact ⟨by rw [Budget.key, h1, h2, h3], h4, h5⟩

theorem chargeBudget_rest (h : db.chargeBudget tenant actor day rows bytes size = some db') :
    ∃ bs, db' = { db with budgets := bs } := by
  unfold chargeBudget at h
  simp only [ne_eq] at h
  split_ifs at h
  simp only [Option.some.injEq] at h
  subst h
  rcases ensureBudget_cases db tenant actor day with ⟨-, he⟩ | ⟨-, he⟩
  · exact ⟨_, by rw [he]⟩
  · exact ⟨_, by rw [he]⟩

/-- A charge counts one event of `size` bytes under its key and nothing under the others. -/
theorem chargeBudget_spec (hk : db.BudgetKeys)
    (h : db.chargeBudget tenant actor day rows bytes size = some db') :
    db'.BudgetKeys
      ∧ (∀ k, db'.budgetOf k = if k = (tenant, actor, day)
          then ((db.budgetOf k).1 + 1, (db.budgetOf k).2 + size) else db.budgetOf k)
      ∧ (db.budgetOf (tenant, actor, day)).1 < rows
      ∧ (db.budgetOf (tenant, actor, day)).2 ≤ bytes - size := by
  unfold chargeBudget at h
  simp only [ne_eq] at h
  split_ifs at h with hc
  simp only [Option.some.injEq] at h
  subst h
  have hkeys := ensureBudget_keys tenant actor day hk
  have hval := budgetOf_ensureBudget db tenant actor day
  set e := db.ensureBudget tenant actor day
  set p := fits tenant actor day rows bytes size
  obtain ⟨b, hb, hp⟩ := List.countP_pos_iff.1 (by omega : 0 < e.budgets.countP p)
  obtain ⟨hbk, hrows, hbytes⟩ := fits_key hp
  have hlook : Table.lookup Budget.key (tenant, actor, day) e.budgets = some b :=
    (Table.lookup_eq_some hkeys).2 ⟨hb, hbk⟩
  have hbudget : db.budgetOf (tenant, actor, day) = (b.acceptedRows, b.acceptedBytes) := by
    rw [← hval]
    simp only [budgetOf, hlook]
  have hadd : ∀ r, p r = true → (r.add size).key = r.key := fun r _ => rfl
  refine ⟨?_, fun k => ?_, ?_, ?_⟩
  · simp only [BudgetKeys]
    rw [Table.map_update hadd]
    exact hkeys
  · rw [← hval k]
    simp only [budgetOf, Table.lookup_update hadd]
    split_ifs with hkk
    · subst hkk
      rw [hlook, Option.map_some, if_pos hp]
      rfl
    · rcases hl : Table.lookup Budget.key k e.budgets with _ | r
      · rfl
      · have hr := (Table.lookup_mem hl).2
        have hpr : ¬ p r = true := fun hp' => hkk (by rw [← hr, (fits_key hp').1])
        simp only [Option.map_some, if_neg hpr]
  · rw [hbudget]
    exact hrows
  · rw [hbudget]
    exact hbytes

end Budgets

end HubDB

/-! ## One event -/

/-- The metric row an accepted event adds. -/
def metricOf (tenant agent : String) (e : IngestEvent) : Option MetricRecord :=
  e.metric.map (metricRecord tenant agent)

/-- The process row an accepted event adds. -/
def processOf (tenant agent : String) (e : IngestEvent) : Option ProcessRecord :=
  if e.metric.isNone then e.process.map (processRecord tenant agent) else none

theorem insertRow_spec {tenant agent : String} {e : IngestEvent} {tx tx' : HubDB}
    (h : insertRow tenant agent e tx = .ok tx') :
    tx'.receipts = tx.receipts ∧ tx'.budgets = tx.budgets
      ∧ tx'.metrics.map (·.row) = tx.metrics.map (·.row) ++ (metricOf tenant agent e).toList
      ∧ tx'.processes.map (·.row)
        = tx.processes.map (·.row) ++ (processOf tenant agent e).toList
      ∧ (metricOf tenant agent e).toList.length + (processOf tenant agent e).toList.length = 1 := by
  unfold insertRow at h
  split at h
  · rename_i m hm
    cases h
    simp [HubDB.insertMetric, metricOf, processOf, hm]
  · rename_i p hm hp
    cases h
    simp [HubDB.insertProcess, metricOf, processOf, hm, hp]
  · cases h

variable (K : EventCodec)

/-- What accepting one event with body `body` does to the tables. -/
structure Accepts (tenant agent : String) (policy : IngestPolicy) (now : ℤ) (e : IngestEvent)
    (body : List UInt8) (tx tx' : HubDB) : Prop where
  fresh : ∀ r ∈ tx.receipts, (receiptOf K tenant agent now e body).clash r = false
  receipts : tx'.receipts = tx.receipts ++ [receiptOf K tenant agent now e body]
  metrics : tx'.metrics.map (·.row) = tx.metrics.map (·.row) ++ (metricOf tenant agent e).toList
  processes : tx'.processes.map (·.row)
    = tx.processes.map (·.row) ++ (processOf tenant agent e).toList
  one : (metricOf tenant agent e).toList.length + (processOf tenant agent e).toList.length = 1
  charged : tx.BudgetKeys → tx'.BudgetKeys
    ∧ ∃ mid : HubDB, mid.BudgetKeys
      ∧ (tx.budgetOf (tenant, "", utcDay now)).1 < policy.dailyRows
      ∧ (tx.budgetOf (tenant, "", utcDay now)).2 ≤ policy.dailyBytes - body.length
      ∧ (∀ k, mid.budgetOf k = if k = (tenant, "", utcDay now)
          then ((tx.budgetOf k).1 + 1, (tx.budgetOf k).2 + body.length) else tx.budgetOf k)
      ∧ (mid.budgetOf (tenant, agent, utcDay now)).1 < policy.agentDailyRows
      ∧ (mid.budgetOf (tenant, agent, utcDay now)).2 ≤ policy.agentDailyBytes - body.length
      ∧ ∀ k, tx'.budgetOf k = if k = (tenant, agent, utcDay now)
          then ((mid.budgetOf k).1 + 1, (mid.budgetOf k).2 + body.length) else mid.budgetOf k

theorem HubDB.insertReceipt_some {r : Receipt} {tx tx' : HubDB} (h : tx.insertReceipt r = some tx') :
    tx' = { tx with receipts := tx.receipts ++ [r] } ∧ ∀ x ∈ tx.receipts, r.clash x = false := by
  unfold insertReceipt at h
  obtain ⟨rs, hrs, rfl⟩ := Option.map_eq_some_iff.1 h
  obtain ⟨rfl, hno⟩ := Table.insert_some hrs
  exact ⟨rfl, hno⟩

theorem budgetOf_congr {db db' : HubDB} (h : db.budgets = db'.budgets) (k : String × String × ℤ) :
    db.budgetOf k = db'.budgetOf k := by
  simp only [HubDB.budgetOf, h]

theorem chargeBudgets_ok {tenant agent : String} {policy : IngestPolicy} {now : ℤ} {size : ℕ}
    {tx tx' : HubDB} (h : chargeBudgets tenant agent policy now size tx = .ok tx') :
    ∃ mid, tx.chargeBudget tenant "" (utcDay now) policy.dailyRows policy.dailyBytes size = some mid
      ∧ mid.chargeBudget tenant agent (utcDay now) policy.agentDailyRows policy.agentDailyBytes size
        = some tx' := by
  unfold chargeBudgets at h
  split at h
  · cases h
  rename_i mid hmid
  split at h
  · cases h
  rename_i tx₁ h₁
  cases h
  exact ⟨mid, hmid, h₁⟩

/-- The statements of a turn that goes through. -/
theorem acceptEvent_ok {tenant agent : String} {policy : IngestPolicy} {now : ℤ}
    {e : IngestEvent} {tx tx' : HubDB} {o : IngestOutcome}
    (h : acceptEvent K tenant agent policy now e tx = .ok (tx', o)) :
    ∃ body, K.marshal e = .ok body
      ∧ ((tx.insertReceipt (receiptOf K tenant agent now e body) = none ∧ tx' = tx
          ∧ tx.selectContentHash tenant agent e.eventID = some (K.contentHash body)
          ∧ o = ⟨e.eventID, .duplicate⟩)
        ∨ ∃ tx₁ tx₂, tx.insertReceipt (receiptOf K tenant agent now e body) = some tx₁
          ∧ chargeBudgets tenant agent policy now body.length tx₁ = .ok tx₂
          ∧ insertRow tenant agent e tx₂ = .ok tx' ∧ o = ⟨e.eventID, .accepted⟩) := by
  unfold acceptEvent at h
  split at h
  · cases h
  rename_i body hbody
  refine ⟨body, hbody, ?_⟩
  split at h
  · rename_i hnone
    split_ifs at h with hh
    simp only [Except.ok.injEq, Prod.mk.injEq] at h
    exact .inl ⟨hnone, h.1.symm, hh, h.2.symm⟩
  · rename_i tx₁ h₁
    split at h
    · cases h
    rename_i tx₂ h₂
    split at h
    · cases h
    rename_i tx₃ h₃
    simp only [Except.ok.injEq, Prod.mk.injEq] at h
    obtain ⟨rfl, rfl⟩ := h
    exact .inr ⟨tx₁, tx₂, h₁, h₂, h₃, rfl⟩

theorem acceptEvent_cases {tenant agent : String} {policy : IngestPolicy} {now : ℤ}
    {e : IngestEvent} {tx tx' : HubDB} {o : IngestOutcome}
    (h : acceptEvent K tenant agent policy now e tx = .ok (tx', o)) :
    ∃ body, K.marshal e = .ok body
      ∧ ((o = ⟨e.eventID, .duplicate⟩ ∧ tx' = tx
          ∧ tx.selectContentHash tenant agent e.eventID = some (K.contentHash body))
        ∨ (o = ⟨e.eventID, .accepted⟩ ∧ Accepts K tenant agent policy now e body tx tx')) := by
  obtain ⟨body, hbody, ⟨-, htx, hhash, ho⟩ | ⟨tx₁, tx₂, h₁, h₂, h₃, rfl⟩⟩ := acceptEvent_ok K h
  · exact ⟨body, hbody, .inl ⟨ho, htx, hhash⟩⟩
  refine ⟨body, hbody, .inr ⟨rfl, ?_⟩⟩
  obtain ⟨rfl, hfresh⟩ := HubDB.insertReceipt_some h₁
  obtain ⟨mid, hmid, h₄⟩ := chargeBudgets_ok h₂
  obtain ⟨hr, hb, hm, hp, hone⟩ := insertRow_spec h₃
  obtain ⟨bs, rfl⟩ := HubDB.chargeBudget_rest hmid
  obtain ⟨bs', rfl⟩ := HubDB.chargeBudget_rest h₄
  refine ⟨hfresh, hr, hm, hp, hone, fun hk => ?_⟩
  have hk₀ : ({ tx with receipts := tx.receipts ++ [receiptOf K tenant agent now e body] } :
      HubDB).BudgetKeys := hk
  obtain ⟨hk₁, hv₁, hr₁, hb₁⟩ := HubDB.chargeBudget_spec hk₀ hmid
  obtain ⟨hk₂, hv₂, hr₂, hb₂⟩ := HubDB.chargeBudget_spec hk₁ h₄
  refine ⟨?_, _, hk₁, hr₁, hb₁, hv₁, hr₂, hb₂, fun k => ?_⟩
  · simp only [HubDB.BudgetKeys, hb]
    exact hk₂
  · rw [← hv₂ k]
    exact budgetOf_congr hb k

/-! ## One call -/

/-- The events whose outcome is that they were accepted. -/
def acceptedEvents : List IngestEvent → List IngestOutcome → List IngestEvent
  | e :: es, o :: os =>
    if o.status = .accepted then e :: acceptedEvents es os else acceptedEvents es os
  | _, _ => []

theorem acceptedEvents_sub : ∀ {es : List IngestEvent} {os : List IngestOutcome} {e : IngestEvent},
    e ∈ acceptedEvents es os → e ∈ es
  | [], os, e, h => by
    cases os <;> cases h
  | e' :: es, [], e, h => by cases h
  | e' :: es, o :: os, e, h => by
    simp only [acceptedEvents] at h
    split_ifs at h
    · rcases List.mem_cons.1 h with rfl | h
      · exact List.mem_cons_self
      · exact List.mem_cons_of_mem _ (acceptedEvents_sub h)
    · exact List.mem_cons_of_mem _ (acceptedEvents_sub h)

/-- A loop that goes through is one turn and the loop over the other events. -/
theorem acceptEvents_cons {tenant agent : String} {policy : IngestPolicy} {now : ℤ}
    {e : IngestEvent} {es : List IngestEvent} {tx tx' : HubDB} {os : List IngestOutcome}
    (h : acceptEvents K tenant agent policy now (e :: es) tx = .ok (tx', os)) :
    ∃ tx₁ o os', acceptEvent K tenant agent policy now e tx = .ok (tx₁, o)
      ∧ acceptEvents K tenant agent policy now es tx₁ = .ok (tx', os') ∧ os = o :: os' := by
  simp only [acceptEvents] at h
  split at h
  · cases h
  rename_i tx₁ o h₁
  split at h
  · cases h
  rename_i tx₂ os' h₂
  simp only [Except.ok.injEq, Prod.mk.injEq] at h
  obtain ⟨rfl, rfl⟩ := h
  exact ⟨tx₁, o, os', h₁, h₂, rfl⟩

/-- What each accepted event of the loop keeps, the whole loop keeps. -/
theorem acceptEvents_induct {tenant agent : String} {policy : IngestPolicy} {now : ℤ}
    {P : HubDB → List IngestEvent → Prop} :
    ∀ (acc : List IngestEvent) {es : List IngestEvent} {tx tx' : HubDB} {os : List IngestOutcome},
      (∀ e ∈ es, ∀ body tx tx' acc, P tx acc → K.marshal e = .ok body →
        Accepts K tenant agent policy now e body tx tx' → P tx' (acc ++ [e])) →
      acceptEvents K tenant agent policy now es tx = .ok (tx', os) → P tx acc →
      P tx' (acc ++ acceptedEvents es os)
  | acc, [], tx, tx', os, _, h, hP => by
    simp only [acceptEvents, Except.ok.injEq, Prod.mk.injEq] at h
    obtain ⟨rfl, rfl⟩ := h
    simpa [acceptedEvents] using hP
  | acc, e :: es, tx, tx', os, hstep, h, hP => by
    obtain ⟨tx₁, o, os', h₁, h₂, rfl⟩ := acceptEvents_cons K h
    have hrest := fun e' he' => hstep e' (List.mem_cons_of_mem _ he')
    obtain ⟨body, hbody, ⟨rfl, rfl, -⟩ | ⟨rfl, hacc⟩⟩ := acceptEvent_cases K h₁
    · simp only [acceptedEvents, reduceCtorEq, if_false]
      exact acceptEvents_induct acc hrest h₂ hP
    · simp only [acceptedEvents, if_true]
      have := acceptEvents_induct (acc ++ [e]) hrest h₂
        (hstep e List.mem_cons_self body tx tx₁ acc hP hbody hacc)
      simpa using this

theorem acceptEvents_eventIDs {tenant agent : String} {policy : IngestPolicy} {now : ℤ} :
    ∀ {es : List IngestEvent} {tx tx' : HubDB} {os : List IngestOutcome},
      acceptEvents K tenant agent policy now es tx = .ok (tx', os) →
      os.map (·.eventID) = es.map (·.eventID)
  | [], tx, tx', os, h => by
    simp only [acceptEvents, Except.ok.injEq, Prod.mk.injEq] at h
    simp [← h.2]
  | e :: es, tx, tx', os, h => by
    obtain ⟨tx₁, o, os', h₁, h₂, rfl⟩ := acceptEvents_cons K h
    have ho : o.eventID = e.eventID := by
      obtain ⟨body, -, ⟨rfl, -, -⟩ | ⟨rfl, -⟩⟩ := acceptEvent_cases K h₁ <;> rfl
    simp only [List.map_cons, ho, acceptEvents_eventIDs h₂]

/-- The tables after a call that accepted `acc`: one receipt and one data row more for each. -/
structure Adds (tenant agent : String) (now : ℤ) (acc : List IngestEvent) (db db' : HubDB) :
    Prop where
  receipts : ∃ rs, db'.receipts = db.receipts ++ rs
    ∧ rs.map Receipt.key = acc.map fun e => (tenant, agent, e.eventID)
  metrics : db'.metrics.map (·.row)
    = db.metrics.map (·.row) ++ acc.filterMap (metricOf tenant agent)
  processes : db'.processes.map (·.row)
    = db.processes.map (·.row) ++ acc.filterMap (processOf tenant agent)
  rows : (acc.filterMap (metricOf tenant agent)).length
    + (acc.filterMap (processOf tenant agent)).length = acc.length

theorem toList_filterMap {α β : Type*} (f : α → Option β) (a : α) :
    [a].filterMap f = (f a).toList := by
  rcases h : f a with _ | b <;> simp [h]

theorem acceptEvents_adds {tenant agent : String} {policy : IngestPolicy} {now : ℤ}
    {es : List IngestEvent} {tx tx' : HubDB} {os : List IngestOutcome}
    (h : acceptEvents K tenant agent policy now es tx = .ok (tx', os)) :
    Adds tenant agent now (acceptedEvents es os) tx tx' := by
  refine acceptEvents_induct K (P := fun db acc => Adds tenant agent now acc tx db) []
    ?_ h ⟨⟨[], by simp⟩, by simp, by simp, by simp⟩
  rintro e - body db db' acc ⟨⟨rs, hrs, hkeys⟩, hm, hp, hrows⟩ - hacc
  refine ⟨⟨rs ++ [receiptOf K tenant agent now e body], ?_, ?_⟩, ?_, ?_, ?_⟩
  · rw [hacc.receipts, hrs, List.append_assoc]
  · rw [List.map_append, List.map_append, hkeys]
    rfl
  · rw [hacc.metrics, hm, List.filterMap_append, toList_filterMap, List.append_assoc]
  · rw [hacc.processes, hp, List.filterMap_append, toList_filterMap, List.append_assoc]
  · have hone := hacc.one
    simp only [List.filterMap_append, toList_filterMap, List.length_append, List.length_singleton]
    omega

/-- A call fails and changes nothing, or accepts the events of its normalised batch. -/
theorem acceptIngest_cases (tenant agent : String) (batch : IngestBatch) (policy : IngestPolicy)
    (now : ℤ) (db : HubDB) :
    ((∃ err, (db.acceptIngest K tenant agent batch policy now).2 = .error err)
        ∧ (db.acceptIngest K tenant agent batch policy now).1 = db)
    ∨ ∃ batch' tx' os, normalizeIngest batch tenant agent now = .ok batch'
        ∧ policy.validate = .ok ()
        ∧ acceptEvents K tenant agent policy now batch'.events db = .ok (tx', os)
        ∧ db.acceptIngest K tenant agent batch policy now = (tx', .ok os) := by
  unfold HubDB.acceptIngest
  rcases hn : normalizeIngest batch tenant agent now with err | batch'
  · exact .inl ⟨⟨err, rfl⟩, rfl⟩
  rcases hv : policy.validate with err | u
  · exact .inl ⟨⟨err, rfl⟩, rfl⟩
  unfold acceptIngest Table.transact
  rcases ha : acceptEvents K tenant agent policy now batch'.events db with err | ⟨tx', os⟩
  · exact .inl ⟨⟨err, by simp [ha]⟩, by simp [ha]⟩
  · exact .inr ⟨batch', tx', os, rfl, rfl, ha, by simp [ha]⟩

/-! ## Normalisation -/

def IngestEvent.timestamp (e : IngestEvent) : ℤ :=
  match e.metric, e.process with
  | some m, _ => m.timestamp
  | none, some p => p.timestamp
  | none, none => zeroTime

theorem normalizeRow_ok {tenant agent : String} {e e' : IngestEvent} {ts : ℤ}
    (h : normalizeRow tenant agent e = .ok (e', ts)) :
    e'.timestamp = ts ∧ e.timestamp = ts ∧ e'.eventID = e.eventID ∧ e'.bootID = e.bootID
      ∧ e'.sequence = e.sequence := by
  unfold normalizeRow at h
  split at h
  · rename_i m hm
    split_ifs at h
    simp only [Except.ok.injEq, Prod.mk.injEq] at h
    obtain ⟨rfl, rfl⟩ := h
    exact ⟨rfl, by rw [IngestEvent.timestamp, hm], rfl, rfl, rfl⟩
  · rename_i p hm hp
    split_ifs at h
    simp only [Except.ok.injEq, Prod.mk.injEq] at h
    obtain ⟨rfl, rfl⟩ := h
    exact ⟨by simp only [IngestEvent.timestamp, hm], by rw [IngestEvent.timestamp, hm, hp], rfl, rfl,
      rfl⟩
  · cases h

theorem normalizeEvent_ok {tenant agent : String} {now : ℤ} {seen : List String}
    {e e' : IngestEvent} (h : normalizeEvent tenant agent now seen e = .ok e') :
    e.identified seen = true ∧ normalizeRow tenant agent e = .ok (e', e.timestamp)
      ∧ inWindow now e.timestamp = true := by
  unfold normalizeEvent at h
  split_ifs at h with hid
  split at h
  · cases h
  rename_i e₁ ts hr
  split_ifs at h with hw
  cases h
  obtain ⟨-, rfl, -⟩ := normalizeRow_ok hr
  exact ⟨by simpa using hid, hr, hw⟩

theorem normalizeEvents_mem {tenant agent : String} {now : ℤ} {es es' : List IngestEvent}
    {seen : List String} (h : normalizeEvents tenant agent now seen es = .ok es') :
    ∀ e' ∈ es', ∃ e ∈ es, ∃ seen', normalizeEvent tenant agent now seen' e = .ok e' := by
  induction es generalizing es' seen with
  | nil =>
    simp only [normalizeEvents, Except.ok.injEq] at h
    subst h
    simp
  | cons e es ih =>
    simp only [normalizeEvents] at h
    obtain ⟨e₁, h₁, h⟩ := Table.ok_of_bind h
    obtain ⟨es₁, h₂, h⟩ := Table.ok_of_bind h
    cases h
    intro e' he'
    rcases List.mem_cons.1 he' with rfl | he'
    · exact ⟨e, List.mem_cons_self, seen, h₁⟩
    · obtain ⟨e₀, he₀, hs⟩ := ih h₂ e' he'
      exact ⟨e₀, List.mem_cons_of_mem _ he₀, hs⟩

/-- A normalised batch is for a named agent, and its events are in the window. -/
theorem normalizeIngest_ok {batch batch' : IngestBatch} {tenant agent : String} {now : ℤ}
    (h : normalizeIngest batch tenant agent now = .ok batch') :
    agent ≠ "" ∧ normalizeEvents tenant agent now [] batch.events = .ok batch'.events
      ∧ ∀ e ∈ batch'.events, inWindow now e.timestamp = true := by
  unfold normalizeIngest at h
  split_ifs at h with hc
  simp only [not_or] at hc
  split at h
  · cases h
  rename_i es hes
  cases h
  refine ⟨hc.2.1, hes, fun e' he' => ?_⟩
  obtain ⟨e, -, seen, he⟩ := normalizeEvents_mem hes e' he'
  obtain ⟨-, hr, hw⟩ := normalizeEvent_ok he
  rw [(normalizeRow_ok hr).1]
  exact hw

/-! ## A sample -/

/-- A metric of `agent-a` taken at the start of 2026. -/
def sampleMetric : MetricRow where
  id := 0
  timestamp := 1767225600 * second
  tenantID := ""
  serverID := "agent-a"
  hostname := ""
  cpuPct := .fin 20
  memPct := .fin 30
  diskFreeGB := .fin 0
  netSentBytes := 0
  netRecvBytes := 0
  cpuCores := 0
  memTotalGB := .fin 0
  diskTotalGB := .fin 0
  diskReadOps := 0
  diskWriteOps := 0
  diskIOPS := .fin 0
  netMBps := .fin 0
  concurrentUsers := 0
  netSentExternal := 0
  netRecvExternal := 0
  netSentInternal := 0
  netRecvInternal := 0

def sampleEvent : IngestEvent := ⟨"event-1", "boot-1", 1, some sampleMetric, none⟩

/-- The JSON text of the sample event once normalised for `tenant-a`. -/
def sampleText : String :=
    "\x7b\"event_id\":\"event-1\",\"boot_id\":\"boot-1\",\"sequence\":1," ++
    "\"metric\":\x7b\"ID\":0,\"Timestamp\":\"2026-01-01T00:00:00Z\"," ++
    "\"TenantID\":\"tenant-a\",\"ServerID\":\"agent-a\",\"Hostname\":\"\"," ++
    "\"CPUPct\":20,\"MemPct\":30,\"DiskFreeGB\":0,\"NetSentBytes\":0," ++
    "\"NetRecvBytes\":0,\"CPUCores\":0,\"MemTotalGB\":0,\"DiskTotalGB\":0," ++
    "\"DiskReadOps\":0,\"DiskWriteOps\":0,\"DiskIOPS\":0,\"NetMBps\":0," ++
    "\"ConcurrentUsers\":0,\"NetSentExternal\":0,\"NetRecvExternal\":0," ++
    "\"NetSentInternal\":0,\"NetRecvInternal\":0\x7d\x7d"

/-- The real text and digest of the normalised sample event. -/
def sampleCodec : EventCodec where
  marshal _ := .ok sampleText.toUTF8.data.toList
  sha256 _ := [155, 109, 149, 98, 129, 252, 159, 75, 41, 155, 133, 182, 183, 126, 106, 34, 211,
    249, 42, 173, 41, 170, 134, 186, 39, 6, 28, 254, 142, 2, 52, 114]

end WMonitor
