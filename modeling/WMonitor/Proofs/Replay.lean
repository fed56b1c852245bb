import WMonitor.Proofs.Ingest

/-!
# An accepted event stays out

An event accepted at `n` was stamped at most a minute after `n`, and its receipt is deleted only
by a cleanup more than `MaxEventAge + 48h` later, when the window no longer admits it. So while
the Hub's clock does not go back, an event once inserted is either known by its receipt or too
old (`Shut`), and no later call inserts it again, whatever was cleaned up in between.
-/

namespace WMonitor

variable (K : EventCodec)

/-- The events a call inserted, each under its tenant and agent and as normalised. -/
def IngestCall.inserted (c : IngestCall) (db : HubDB) : List (String × String × IngestEvent) :=
  match c with
  | accept tenant agent batch policy now =>
    match normalizeIngest batch tenant agent now,
      (db.acceptIngest K tenant agent batch policy now).2 with
    | .ok batch', .ok outs => (acceptedEvents batch'.events outs).map (tenant, agent, ·)
    | _, _ => []
  | cleanup _ _ => []

/-- The events a run inserted, in order. -/
def insertedBy : List IngestCall → HubDB → List (String × String × IngestEvent)
  | [], _ => []
  | c :: cs, db => c.inserted K db ++ insertedBy cs (c.step K db)

/-- From time `now` on, no call can insert the event again: its receipt is there, received no
more than a minute before the event's timestamp, or the event is too old. -/
def Shut (now : ℤ) (db : HubDB) (x : String × String × IngestEvent) : Prop :=
  (∃ r ∈ db.receipts, r.key = (x.1, x.2.1, x.2.2.eventID)
      ∧ x.2.2.timestamp < (r.receivedAt + 1) * second + minute)
    ∨ x.2.2.timestamp < now - maxEventAge

theorem Shut.later {now now' : ℤ} {db : HubDB} {x : String × String × IngestEvent}
    (h : Shut now db x) (hn : now ≤ now') : Shut now' db x := by
  rcases h with h | h
  · exact .inl h
  · exact .inr (by omega)

theorem Shut.receipts {now : ℤ} {db db' : HubDB} {x : String × String × IngestEvent}
    {rs : List Receipt} (h : Shut now db x) (hr : db'.receipts = db.receipts ++ rs) :
    Shut now db' x := by
  rcases h with ⟨r, hm, hk, ht⟩ | h
  · exact .inl ⟨r, by rw [hr]; exact List.mem_append_left _ hm, hk, ht⟩
  · exact .inr h

/-- A cleanup deletes only receipts of events that are too old by then. -/
theorem Shut.cleanup {now : ℤ} {db : HubDB} {x : String × String × IngestEvent}
    (second : Bool) (h : Shut now db x) : Shut now (cleanupIngest now second db) x := by
  have hrec : (cleanupIngest now second db).receipts
      = Table.delete (·.receivedAt < unix (cleanupCutoff now)) db.receipts := by
    unfold cleanupIngest
    cases second <;> rfl
  rcases h with ⟨r, hm, hk, ht⟩ | h
  · by_cases hd : r.receivedAt < unix (cleanupCutoff now)
    · refine .inr ?_
      unfold unix cleanupCutoff at hd
      unfold maxEventAge hour minute WMonitor.second at *
      omega
    · refine .inl ⟨r, ?_, hk, ht⟩
      rw [hrec, Table.mem_delete]
      exact ⟨hm, by simpa using hd⟩
  · exact .inr h

/-- Nothing that is shut is inserted again, so a batch adds new events only. -/
theorem acceptEvents_shut {tenant agent : String} {policy : IngestPolicy} {now : ℤ}
    {es : List IngestEvent} {db db' : HubDB} {os : List IngestOutcome}
    {log : List (String × String × IngestEvent)} (hw : ∀ e ∈ es, inWindow now e.timestamp = true)
    (h : acceptEvents K tenant agent policy now es db = .ok (db', os)) (hn : log.Nodup)
    (hs : ∀ x ∈ log, Shut now db x) :
    (log ++ (acceptedEvents es os).map (tenant, agent, ·)).Nodup
      ∧ ∀ x ∈ log ++ (acceptedEvents es os).map (tenant, agent, ·), Shut now db' x := by
  refine acceptEvents_induct K (P := fun db acc => (log ++ acc.map (tenant, agent, ·)).Nodup
    ∧ ∀ x ∈ log ++ acc.map (tenant, agent, ·), Shut now db x) [] ?_ h ?_
  swap
  · simpa only [List.map_nil, List.append_nil] using And.intro hn hs
  rintro e he body tx tx' acc ⟨hnd, hsh⟩ - hacc
  have hwin := hw e he
  simp only [inWindow, Bool.not_eq_true', Bool.or_eq_false_iff, decide_eq_false_iff_not,
    not_lt] at hwin
  obtain ⟨⟨-, hle⟩, hge⟩ := hwin
  have hnew : (tenant, agent, e) ∉ log ++ acc.map (tenant, agent, ·) := by
    intro hm
    rcases hsh _ hm with ⟨r, hr, hk, -⟩ | hold
    · have := hacc.fresh r hr
      simp only [Receipt.clash, Bool.or_eq_false_iff, decide_eq_false_iff_not] at this
      exact this.1 hk.symm
    · exact absurd hold (by simpa using hge)
  have hlast : Shut now tx' (tenant, agent, e) := by
    refine .inl ⟨receiptOf K tenant agent now e body, by simp [hacc.receipts], rfl, ?_⟩
    simp only [receiptOf, unix]
    unfold minute second at *
    omega
  simp only [List.map_append, List.map_cons, List.map_nil, ← List.append_assoc]
  refine ⟨List.nodup_append.2 ⟨hnd, List.nodup_singleton _, ?_⟩, fun x hx => ?_⟩
  · rintro x hx y hy rfl
    exact hnew ((List.mem_singleton.1 hy) ▸ hx)
  · rcases List.mem_append.1 hx with hx | hx
    · exact (hsh x hx).receipts hacc.receipts
    · rw [List.mem_singleton.1 hx]
      exact hlast

/-- One call keeps everything inserted so far shut, and inserts nothing twice. -/
theorem step_shut (c : IngestCall) {db : HubDB} {log : List (String × String × IngestEvent)}
    (hn : log.Nodup) (hs : ∀ x ∈ log, Shut c.time db x) :
    (log ++ c.inserted K db).Nodup
      ∧ ∀ x ∈ log ++ c.inserted K db, Shut c.time (c.step K db) x := by
  cases c with
  | accept tenant agent batch policy now =>
    rcases acceptIngest_cases K tenant agent batch policy now db with
      ⟨⟨err, he⟩, hdb⟩ | ⟨batch', tx', os, hb, -, ha, he⟩
    · have hnil : (IngestCall.accept tenant agent batch policy now).inserted K db = [] := by
        simp only [IngestCall.inserted, he]
        cases normalizeIngest batch tenant agent now <;> rfl
      rw [hnil, List.append_nil]
      refine ⟨hn, fun x hx => ?_⟩
      simp only [IngestCall.step, hdb]
      exact hs x hx
    · have hins : (IngestCall.accept tenant agent batch policy now).inserted K db
          = (acceptedEvents batch'.events os).map (tenant, agent, ·) := by
        simp only [IngestCall.inserted, he, hb]
      simp only [hins, IngestCall.step, he]
      exact acceptEvents_shut K (normalizeIngest_ok hb).2.2 ha hn hs
  | cleanup now second =>
    simp only [IngestCall.inserted, List.append_nil]
    exact ⟨hn, fun x hx => (hs x hx).cleanup second⟩

/-- The rows a run added are the rows of the events it inserted. -/
theorem insertedBy_rows : ∀ (calls : List IngestCall) (db : HubDB),
    (runIngest K calls db).metrics.map (·.row) = db.metrics.map (·.row)
        ++ (insertedBy K calls db).filterMap (fun x => metricOf x.1 x.2.1 x.2.2)
      ∧ (runIngest K calls db).processes.map (·.row) = db.processes.map (·.row)
        ++ (insertedBy K calls db).filterMap (fun x => processOf x.1 x.2.1 x.2.2)
  | [], db => by simp [runIngest, insertedBy]
  | c :: calls, db => by
    obtain ⟨hm, hp⟩ := insertedBy_rows calls (c.step K db)
    have hrun : runIngest K (c :: calls) db = runIngest K calls (c.step K db) := rfl
    rw [hrun, hm, hp]
    simp only [insertedBy, List.filterMap_append, ← List.append_assoc]
    cases c with
    | accept tenant agent batch policy now =>
      rcases acceptIngest_cases K tenant agent batch policy now db with
        ⟨⟨err, he⟩, hdb⟩ | ⟨batch', tx', os, hb, -, ha, he⟩
      · have hnil : (IngestCall.accept tenant agent batch policy now).inserted K db = [] := by
          simp only [IngestCall.inserted, he]
          cases normalizeIngest batch tenant agent now <;> rfl
        simp [hnil, IngestCall.step, hdb]
      · have hadds := acceptEvents_adds K ha
        simp only [IngestCall.inserted, IngestCall.step, he, hb, hadds.metrics, hadds.processes,
          List.filterMap_map, Function.comp_def]
        exact ⟨trivial, trivial⟩
    | cleanup now second =>
      have hrows : (cleanupIngest now second db).metrics = db.metrics
          ∧ (cleanupIngest now second db).processes = db.processes := by
        unfold cleanupIngest
        cases second <;> exact ⟨rfl, rfl⟩
      simp [IngestCall.inserted, IngestCall.step, hrows]

theorem insertedBy_nodup : ∀ (calls : List IngestCall) (db : HubDB)
    (log : List (String × String × IngestEvent)), (calls.map IngestCall.time).Pairwise (· ≤ ·) →
    log.Nodup → (∀ c ∈ calls, ∀ x ∈ log, Shut c.time db x) → (log ++ insertedBy K calls db).Nodup
  | [], db, log, _, hn, _ => by simpa [insertedBy] using hn
  | c :: calls, db, log, ht, hn, hs => by
    simp only [List.map_cons, List.pairwise_cons] at ht
    obtain ⟨hn', hs'⟩ := step_shut K c hn (hs c List.mem_cons_self)
    simp only [insertedBy, ← List.append_assoc]
    refine insertedBy_nodup calls _ _ ht.2 hn' fun c' hc' x hx => ?_
    exact (hs' x hx).later (ht.1 _ (List.mem_map_of_mem hc'))

/-- However often receipts are cleaned up, while the Hub's clock does not go back a run inserts an
event at most once for its tenant and agent, and the rows it adds are those of the events it
inserts. -/
theorem ingest_once (calls : List IngestCall) (db : HubDB)
    (ht : (calls.map IngestCall.time).Pairwise (· ≤ ·)) :
    (insertedBy K calls db).Nodup
      ∧ (runIngest K calls db).metrics.map (·.row) = db.metrics.map (·.row)
        ++ (insertedBy K calls db).filterMap (fun x => metricOf x.1 x.2.1 x.2.2)
      ∧ (runIngest K calls db).processes.map (·.row) = db.processes.map (·.row)
        ++ (insertedBy K calls db).filterMap (fun x => processOf x.1 x.2.1 x.2.2) := by
  refine ⟨?_, insertedBy_rows K calls db⟩
  simpa using insertedBy_nodup K calls db [] ht List.nodup_nil (by simp)

/-- The sample accepted, its receipt cleaned up 33 days later, and the sample sent again. -/
def sampleReplay : List IngestCall :=
  [.accept "tenant-a" "agent-a" ⟨ingestSchema, [sampleEvent]⟩ defaultIngestPolicy
      (1767225600 * second),
    .cleanup (1770076800 * second + 1) true,
    .accept "tenant-a" "agent-a" ⟨ingestSchema, [sampleEvent]⟩ defaultIngestPolicy
      (1770076800 * second + 1)]

theorem ingest_once_sample :
    (runIngest sampleCodec sampleReplay .empty).receipts = []
      ∧ (insertedBy sampleCodec sampleReplay .empty).length = 1
      ∧ (insertedBy sampleCodec sampleReplay .empty).Nodup :=
  ⟨by decide +kernel, by decide +kernel,
    (ingest_once sampleCodec sampleReplay .empty (by decide +kernel)).1⟩

end WMonitor
