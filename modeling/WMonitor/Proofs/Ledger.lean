import WMonitor.Proofs.Ingest

/-!
# The budgets count the receipts

On a day that no cleanup has reached, a tenant's budget row counts the tenant's receipts of that
day and an agent's row the agent's, in rows and in bytes, and neither passes its limit
(`Ledger`). An accepted event adds its receipt and its two charges together, a failed call adds
nothing, and a cleanup touches only days at or before its cutoff.
-/

namespace WMonitor

/-- The UTC day a receipt was received. -/
def Receipt.day (r : Receipt) : ℤ := r.receivedAt / 86400

/-- The receipts of a day, of one agent or, under the empty actor, of the whole tenant. -/
def HubDB.received (db : HubDB) (tenant actor : String) (day : ℤ) : List Receipt :=
  db.receipts.filter fun r =>
    r.tenantID = tenant && (actor = "" || r.agentID = actor) && r.day = day

/-- How many receipts there are of a day, and their bytes. -/
def HubDB.tally (db : HubDB) (tenant actor : String) (day : ℤ) : ℤ × ℤ :=
  ((db.received tenant actor day).length, (((db.received tenant actor day).map
    (·.acceptedBytes)).sum : ℕ))

/-- The limits of the tenant's row and of an agent's row. -/
def IngestPolicy.limit (p : IngestPolicy) (actor : String) : ℤ × ℤ :=
  if actor = "" then (p.dailyRows, p.dailyBytes) else (p.agentDailyRows, p.agentDailyBytes)

/-- The budgets of the days in `clean` count their receipts and keep to the limits. -/
structure Ledger (policy : IngestPolicy) (clean : ℤ → Prop) (db : HubDB) : Prop where
  keys : db.BudgetKeys
  tally : ∀ tenant actor day, clean day →
    db.budgetOf (tenant, actor, day) = db.tally tenant actor day
  limit : ∀ tenant actor day, clean day →
    (db.budgetOf (tenant, actor, day)).1 ≤ (policy.limit actor).1
      ∧ (db.budgetOf (tenant, actor, day)).2 ≤ (policy.limit actor).2

theorem unix_day (now : ℤ) : unix now / 86400 = utcDay now := by
  unfold unix utcDay hour minute second
  omega

section Step

variable (K : EventCodec) {policy : IngestPolicy} {clean : ℤ → Prop} {tenant agent : String}
  {now : ℤ}

theorem tally_of_receipts {db db' : HubDB} {r : Receipt} (h : db'.receipts = db.receipts ++ [r])
    (t a : String) (d : ℤ) :
    db'.tally t a d = if r.tenantID = t ∧ (a = "" ∨ r.agentID = a) ∧ r.day = d
      then ((db.tally t a d).1 + 1, (db.tally t a d).2 + r.acceptedBytes) else db.tally t a d := by
  have hp : (decide (r.tenantID = t) && (decide (a = "") || decide (r.agentID = a))
      && decide (r.day = d)) = decide (r.tenantID = t ∧ (a = "" ∨ r.agentID = a) ∧ r.day = d) := by
    simp [Bool.and_assoc]
  simp only [HubDB.tally, HubDB.received, h, List.filter_append, List.filter_singleton, hp]
  split_ifs with hc
  · simp [hc]
  · simp [hc]

theorem Accepts.ledger {e : IngestEvent} {body : List UInt8} {db db' : HubDB} (ha : agent ≠ "")
    (h : Accepts K tenant agent policy now e body db db') (hL : Ledger policy clean db) :
    Ledger policy clean db' := by
  obtain ⟨hk', mid, -, hr₁, hb₁, hv₁, hr₂, hb₂, hv₂⟩ := h.charged hL.keys
  have hday : (receiptOf K tenant agent now e body).day = utcDay now := unix_day now
  have hval : ∀ t a d, db'.budgetOf (t, a, d)
      = if tenant = t ∧ (a = "" ∨ agent = a) ∧ utcDay now = d
        then ((db.budgetOf (t, a, d)).1 + 1, (db.budgetOf (t, a, d)).2 + body.length)
        else db.budgetOf (t, a, d) := by
    intro t a d
    rw [hv₂, hv₁]
    by_cases htd : tenant = t ∧ utcDay now = d
    · obtain ⟨rfl, rfl⟩ := htd
      by_cases h0 : a = ""
      · subst h0
        simp [Ne.symm ha]
      · by_cases h1 : agent = a
        · subst h1
          simp [h0]
        · simp [h0, h1, Ne.symm h1]
    · have h1 : (t, a, d) ≠ (tenant, agent, utcDay now) := by
        rintro ⟨⟩
        exact htd ⟨rfl, rfl⟩
      have h2 : (t, a, d) ≠ (tenant, "", utcDay now) := by
        rintro ⟨⟩
        exact htd ⟨rfl, rfl⟩
      have h3 : ¬ (tenant = t ∧ (a = "" ∨ agent = a) ∧ utcDay now = d) :=
        fun h => htd ⟨h.1, h.2.2⟩
      rw [if_neg h1, if_neg h2, if_neg h3]
  refine ⟨hk', fun t a d hd => ?_, fun t a d hd => ?_⟩
  · rw [hval, tally_of_receipts h.receipts, hL.tally t a d hd]
    simp only [hday]
    rfl
  · rw [hval]
    split_ifs with hc
    · obtain ⟨rfl, hc, rfl⟩ := hc
      by_cases h0 : a = ""
      · subst h0
        simp only [IngestPolicy.limit, if_true]
        constructor <;> omega
      · have hag : agent = a := hc.resolve_left h0
        subst hag
        rw [hv₁, if_neg (by simp [ha])] at hr₂ hb₂
        simp only [IngestPolicy.limit, if_neg h0]
        constructor <;> omega
    · exact hL.limit t a d hd

theorem acceptEvents_ledger {es : List IngestEvent} {db db' : HubDB} {os : List IngestOutcome}
    (ha : agent ≠ "") (h : acceptEvents K tenant agent policy now es db = .ok (db', os))
    (hL : Ledger policy clean db) : Ledger policy clean db' :=
  acceptEvents_induct K (P := fun db _ => Ledger policy clean db) []
    (fun _ _ _ _ _ _ hP _ hacc => hacc.ledger K ha hP) h hL

/-- A call under the policy keeps the ledger. -/
theorem acceptIngest_ledger (tenant agent : String) (batch : IngestBatch) (now : ℤ) {db : HubDB}
    (hL : Ledger policy clean db) :
    Ledger policy clean (db.acceptIngest K tenant agent batch policy now).1 := by
  rcases acceptIngest_cases K tenant agent batch policy now db with
    ⟨-, he⟩ | ⟨batch', tx', os, hn, -, ha, he⟩
  · rw [he]
    exact hL
  · rw [he]
    exact acceptEvents_ledger K (normalizeIngest_ok hn).1 ha hL

/-- A cleanup keeps the ledger on the days past its cutoff. -/
theorem cleanupIngest_ledger {clean' : ℤ → Prop} {second : Bool} {db : HubDB}
    (hL : Ledger policy clean db)
    (hc : ∀ d, clean' d → clean d ∧ utcDay (cleanupCutoff now) < d) :
    Ledger policy clean' (cleanupIngest now second db) := by
  set cutoff := cleanupCutoff now
  have hrec : ∀ t a d, utcDay cutoff < d →
      (cleanupIngest now second db).received t a d = db.received t a d := by
    intro t a d hd
    have : (cleanupIngest now second db).receipts
        = Table.delete (·.receivedAt < unix cutoff) db.receipts := by
      unfold cleanupIngest
      cases second <;> rfl
    simp only [HubDB.received, this, Table.delete, List.filter_filter]
    refine List.filter_congr fun r _ => ?_
    by_cases hr : r.day = d
    · have : ¬ r.receivedAt < unix cutoff := by
        have := unix_day cutoff
        simp only [Receipt.day] at hr
        omega
      simp [this]
    · simp [hr]
  have hbud : ∀ t a d, utcDay cutoff < d →
      (cleanupIngest now second db).budgetOf (t, a, d) = db.budgetOf (t, a, d) := by
    intro t a d hd
    unfold cleanupIngest
    cases second
    · rfl
    · simp only [if_true, HubDB.budgetOf]
      rw [Table.delete, Table.lookup_part]
      rintro b ⟨⟩
      simp only [Bool.not_eq_true', decide_eq_false_iff_not, not_lt]
      exact hd.le
  refine ⟨?_, fun t a d hd => ?_, fun t a d hd => ?_⟩
  · unfold cleanupIngest
    cases second
    · exact hL.keys
    · exact hL.keys.sublist (List.Sublist.map _ List.filter_sublist)
  · obtain ⟨h1, h2⟩ := hc d hd
    rw [hbud t a d h2, hL.tally t a d h1]
    simp only [HubDB.tally, hrec t a d h2]
  · obtain ⟨h1, h2⟩ := hc d hd
    rw [hbud t a d h2]
    exact hL.limit t a d h1

end Step

section Run

variable (K : EventCodec) {policy : IngestPolicy}

/-- No cleanup of the run has reached `day`. -/
def CleanDay (calls : List IngestCall) (day : ℤ) : Prop :=
  ∀ now second, .cleanup now second ∈ calls → utcDay (cleanupCutoff now) < day

/-- Every call of the run that ingests is under `policy`. -/
def Under (policy : IngestPolicy) (calls : List IngestCall) : Prop :=
  ∀ tenant agent batch p now, .accept tenant agent batch p now ∈ calls → p = policy

theorem ledger_empty (hv : policy.validate = .ok ()) : Ledger policy (fun _ => True) .empty := by
  unfold IngestPolicy.validate at hv
  split_ifs at hv with hc
  simp only [not_or, not_lt] at hc
  obtain ⟨h1, h2, h3, h4, -, -⟩ := hc
  refine ⟨List.nodup_nil, fun _ _ _ _ => rfl, fun t a d _ => ?_⟩
  have hz : HubDB.empty.budgetOf (t, a, d) = (0, 0) := rfl
  rw [hz]
  unfold IngestPolicy.limit
  unfold maxBatchBytes at h2 h4
  split_ifs
  · constructor <;> simp only <;> omega
  · constructor <;> simp only <;> omega

theorem runIngest_ledger {clean : ℤ → Prop} :
    ∀ (calls : List IngestCall) (db : HubDB), Under policy calls → Ledger policy clean db →
      Ledger policy (fun d => clean d ∧ CleanDay calls d) (runIngest K calls db)
  | [], db, _, hL => by
    refine ⟨hL.keys, fun t a d hd => hL.tally t a d hd.1, fun t a d hd => hL.limit t a d hd.1⟩
  | c :: calls, db, hU, hL => by
    have hU' : Under policy calls := fun t a b p n hm => hU t a b p n (List.mem_cons_of_mem _ hm)
    cases c with
    | accept tenant agent batch p now =>
      have hp : p = policy := hU tenant agent batch p now List.mem_cons_self
      subst p
      have := runIngest_ledger calls _ hU' (acceptIngest_ledger K tenant agent
        batch now hL)
      refine ⟨this.keys, fun t a d hd => this.tally t a d ⟨hd.1, ?_⟩,
        fun t a d hd => this.limit t a d ⟨hd.1, ?_⟩⟩
      all_goals exact fun now second hm => hd.2 now second (List.mem_cons_of_mem _ hm)
    | cleanup now second =>
      have hc : Ledger policy (fun d => clean d ∧ utcDay (cleanupCutoff now) < d)
          (cleanupIngest now second db) := cleanupIngest_ledger hL fun _ h => h
      have := runIngest_ledger calls _ hU' hc
      refine ⟨this.keys, fun t a d hd => this.tally t a d ⟨⟨hd.1, ?_⟩, ?_⟩,
        fun t a d hd => this.limit t a d ⟨⟨hd.1, ?_⟩, ?_⟩⟩
      all_goals first
        | exact hd.2 now second List.mem_cons_self
        | exact fun n s hm => hd.2 n s (List.mem_cons_of_mem _ hm)

/-- In every state reached under one valid policy, the budgets of the days past every cleanup
count the receipts and keep to their limits; a call that fails from there changes no table, and
one that succeeds adds a receipt and a data row for each event it reports accepted. -/
theorem ingest_ledger (calls : List IngestCall) (hv : policy.validate = .ok ())
    (hU : Under policy calls) :
    (∀ tenant day, CleanDay calls day →
      (runIngest K calls .empty).budgetOf (tenant, "", day)
          = (runIngest K calls .empty).tally tenant "" day
        ∧ ((runIngest K calls .empty).tally tenant "" day).1 ≤ policy.dailyRows
        ∧ ((runIngest K calls .empty).tally tenant "" day).2 ≤ policy.dailyBytes
        ∧ ∀ agent, agent ≠ "" →
          (runIngest K calls .empty).budgetOf (tenant, agent, day)
              = (runIngest K calls .empty).tally tenant agent day
            ∧ ((runIngest K calls .empty).tally tenant agent day).1 ≤ policy.agentDailyRows
            ∧ ((runIngest K calls .empty).tally tenant agent day).2 ≤ policy.agentDailyBytes)
      ∧ ∀ tenant agent batch now,
        (∀ err, ((runIngest K calls .empty).acceptIngest K tenant agent batch policy now).2
            = .error err →
          ((runIngest K calls .empty).acceptIngest K tenant agent batch policy now).1
            = runIngest K calls .empty)
        ∧ ∀ outs, ((runIngest K calls .empty).acceptIngest K tenant agent batch policy now).2
            = .ok outs →
          ∃ batch', normalizeIngest batch tenant agent now = .ok batch'
            ∧ outs.map (·.eventID) = batch'.events.map (·.eventID)
            ∧ Adds tenant agent now (acceptedEvents batch'.events outs)
              (runIngest K calls .empty)
              ((runIngest K calls .empty).acceptIngest K tenant agent batch policy now).1 := by
  have hL := runIngest_ledger K calls .empty hU (ledger_empty hv)
  set db := runIngest K calls .empty
  refine ⟨fun tenant day hd => ?_, fun tenant agent batch now => ?_⟩
  · have ht := fun actor => hL.tally tenant actor day ⟨trivial, hd⟩
    have hl := fun actor => hL.limit tenant actor day ⟨trivial, hd⟩
    simp only [ht] at hl
    refine ⟨ht "", (hl "").1, (hl "").2, fun agent ha => ⟨ht agent, ?_⟩⟩
    have := hl agent
    rwa [IngestPolicy.limit, if_neg ha] at this
  · rcases acceptIngest_cases K tenant agent batch policy now db with
      ⟨⟨err, he⟩, hs⟩ | ⟨batch', tx', os, hn, -, ha, he⟩
    · refine ⟨fun _ _ => hs, fun outs ho => ?_⟩
      rw [he] at ho
      cases ho
    · rw [he]
      refine ⟨fun err herr => ?_, fun outs ho => ?_⟩
      · cases herr
      · cases ho
        exact ⟨batch', hn, acceptEvents_eventIDs K ha, acceptEvents_adds K ha⟩

/-- The sample's first acceptance charges its 439 bytes to both budgets. -/
theorem ingest_ledger_sample :
    defaultIngestPolicy.validate = .ok ()
      ∧ (runIngest sampleCodec [.accept "tenant-a" "agent-a" ⟨ingestSchema, [sampleEvent]⟩
          defaultIngestPolicy (1767225600 * second)] .empty).tally "tenant-a" "agent-a" 20454
        = (1, 439)
      ∧ (runIngest sampleCodec [.accept "tenant-a" "agent-a" ⟨ingestSchema, [sampleEvent]⟩
          defaultIngestPolicy (1767225600 * second)] .empty).budgetOf
          ("tenant-a", "agent-a", 20454)
        = (runIngest sampleCodec [.accept "tenant-a" "agent-a" ⟨ingestSchema, [sampleEvent]⟩
          defaultIngestPolicy (1767225600 * second)] .empty).tally "tenant-a" "agent-a" 20454 := by
  have hv : defaultIngestPolicy.validate = .ok () := by decide +kernel
  refine ⟨hv, by decide +kernel, ?_⟩
  have h := ingest_ledger sampleCodec [.accept "tenant-a" "agent-a" ⟨ingestSchema, [sampleEvent]⟩
    defaultIngestPolicy (1767225600 * second)] hv (by simp +contextual [Under])
  exact ((h.1 "tenant-a" 20454 (by simp [CleanDay])).2.2.2 "agent-a" (by decide)).1

end Run

end WMonitor
