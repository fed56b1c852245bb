import WMonitor.Proofs.Delivery
import WMonitor.Proofs.Replay

/-!
# Replays in other batches

An agent that did not hear of the Hub's answer sends its events again, in batches that need not be
the earlier ones. Whatever batches a run accepted, those events of it that still have their receipts
are known, in every order and grouping and whether or not the copies name their owner: `AcceptIngest`
answers `duplicate` to each and changes nothing, as long as no event comes twice in one batch
(`replay_known_iff`). No budget is asked.
-/

namespace WMonitor

variable {K : EventCodec} {tenant agent : String} {now : ℤ}

/-! ## Copies of an event -/

/-- The event with its owner filled in. -/
def IngestEvent.filled (tenant agent : String) (e : IngestEvent) : IngestEvent :=
  { e with
    metric := e.metric.map fun m => { m with tenantID := tenant, serverID := agent }
    process := e.process.map fun p => { p with tenantID := tenant, serverID := agent } }

/-- `e` is `n` with the fields of the owner empty or filled in. -/
structure IngestEvent.Copies (tenant agent : String) (e n : IngestEvent) : Prop where
  filled : e.filled tenant agent = n
  metric : ∀ m ∈ e.metric, (m.tenantID = "" ∨ m.tenantID = tenant)
    ∧ (m.serverID = "" ∨ m.serverID = agent)
  process : ∀ p ∈ e.process, (p.tenantID = "" ∨ p.tenantID = tenant)
    ∧ (p.serverID = "" ∨ p.serverID = agent)

theorem IngestEvent.identified_filled (e : IngestEvent) (seen : List String) :
    (e.filled tenant agent).identified seen = e.identified seen := by
  rcases e with ⟨id, boot, seq, _ | m, _ | p⟩ <;> rfl

theorem IngestEvent.timestamp_filled (e : IngestEvent) :
    (e.filled tenant agent).timestamp = e.timestamp := by
  rcases e with ⟨id, boot, seq, _ | m, _ | p⟩ <;> rfl

/-- A field of the owner that is empty or right is as good as one that is filled in. -/
theorem owner_ok {id owner : String} (h : id = "" ∨ id = owner) :
    (decide (id ≠ "") && decide (id ≠ owner)) = (decide (owner ≠ "") && decide (owner ≠ owner)) := by
  rcases h with rfl | rfl <;> simp

/-- A copy is normalised to what it is a copy of. -/
theorem normalizeRow_copy {e n : IngestEvent} {ts : ℤ} (hc : e.Copies tenant agent n)
    (hid : n.identified [] = true) (h : normalizeRow tenant agent n = .ok (n, ts)) :
    normalizeRow tenant agent e = .ok (n, ts) := by
  obtain ⟨rfl, hm, hp⟩ := hc
  rcases e with ⟨id, boot, seq, _ | m, _ | p⟩
  · cases h
  · obtain ⟨ht, hs⟩ := hp p rfl
    have hadm : p.admitted tenant agent
        = ({ p with tenantID := tenant, serverID := agent } : ProcessRow).admitted tenant agent := by
      simp only [ProcessRow.admitted, owner_ok ht, owner_ok hs]
    simp only [normalizeRow, hadm]
    exact h
  · obtain ⟨ht, hs⟩ := hm m rfl
    have hadm : m.admitted tenant agent
        = ({ m with tenantID := tenant, serverID := agent } : MetricRow).admitted tenant agent := by
      simp only [MetricRow.admitted, owner_ok ht, owner_ok hs]
    simp only [normalizeRow, hadm]
    exact h
  · simp [IngestEvent.identified, IngestEvent.filled] at hid

/-- An event that is normal is the normal form of its copies, whenever it is in the window. -/
theorem normalizeEvent_copy {e n e₀ : IngestEvent} {seen seen₀ : List String} {now₀ : ℤ}
    (hc : e.Copies tenant agent n) (hn : normalizeEvent tenant agent now₀ seen₀ e₀ = .ok n)
    (hseen : e.eventID ∉ seen) (hw : inWindow now e.timestamp = true) :
    normalizeEvent tenant agent now seen e = .ok n := by
  obtain ⟨hid₀, hrow₀, -⟩ := normalizeEvent_ok hn
  obtain ⟨hrow, hids⟩ := normalizeRow_again hrow₀
  have hid : n.identified [] = true := by
    rw [hids]
    simp only [IngestEvent.identified] at hid₀ ⊢
    simp_all
  have hide : e.identified seen = true := by
    rw [← hc.filled, IngestEvent.identified_filled] at hid
    simp only [IngestEvent.identified] at hid ⊢
    simp_all
  have hts : n.timestamp = e.timestamp := by rw [← hc.filled, IngestEvent.timestamp_filled]
  have hrowe := normalizeRow_copy hc hid hrow
  rw [← (normalizeRow_ok hrow).1, hts] at hrowe
  simp only [normalizeEvent, hide, hrowe, hw, Bool.not_true, Bool.false_eq_true, if_false, if_true]

/-! ## What a run inserted -/

/-- What a call inserted is in the normal form of its batch, and has its receipt. -/
theorem inserted_accepted {c : IngestCall} {db : HubDB} {n : IngestEvent}
    (h : (tenant, agent, n) ∈ c.inserted K db) :
    (∃ batch policy now, c = .accept tenant agent batch policy now
        ∧ ∃ batch', normalizeIngest batch tenant agent now = .ok batch' ∧ n ∈ batch'.events)
      ∧ AcceptedBefore K tenant agent [n] (c.step K db) := by
  cases c with
  | cleanup => cases h
  | accept t a batch policy now =>
    rcases acceptIngest_cases K t a batch policy now db with
      ⟨⟨err, he⟩, -⟩ | ⟨batch', tx, os, hb, -, ha, he⟩
    · have hnil : (IngestCall.accept t a batch policy now).inserted K db = [] := by
        simp only [IngestCall.inserted, he]
        cases normalizeIngest batch t a now <;> rfl
      rw [hnil] at h
      cases h
    · rw [IngestCall.inserted, he, hb] at h
      simp only [List.mem_map, Prod.mk.injEq] at h
      obtain ⟨e, hmem, rfl, rfl, rfl⟩ := h
      have hmem := acceptedEvents_sub hmem
      refine ⟨⟨batch, policy, now, rfl, batch', hb, hmem⟩, ?_⟩
      rw [IngestCall.step, he]
      intro e' he'
      rw [List.mem_singleton.1 he']
      exact (acceptEvents_recorded ha).1 e hmem

/-- What was inserted comes from a call of the run, in normal form. -/
theorem insertedBy_call : ∀ {calls : List IngestCall} {db : HubDB} {n : IngestEvent},
    (tenant, agent, n) ∈ insertedBy K calls db →
    ∃ batch policy now, .accept tenant agent batch policy now ∈ calls
      ∧ ∃ batch', normalizeIngest batch tenant agent now = .ok batch' ∧ n ∈ batch'.events
  | [], db, n, h => by cases h
  | c :: calls, db, n, h => by
    rcases List.mem_append.1 h with h | h
    · obtain ⟨⟨batch, policy, now, rfl, hb⟩, -⟩ := inserted_accepted h
      exact ⟨batch, policy, now, List.mem_cons_self, hb⟩
    · obtain ⟨batch, policy, now, hmem, hb⟩ := insertedBy_call h
      exact ⟨batch, policy, now, List.mem_cons_of_mem c hmem, hb⟩

theorem runIngest_receipts : ∀ (calls : List IngestCall) (db : HubDB),
    (∀ c ∈ calls, ∀ now second, c ≠ .cleanup now second) →
    ∃ rs, (runIngest K calls db).receipts = db.receipts ++ rs
  | [], db, _ => ⟨[], (List.append_nil _).symm⟩
  | c :: calls, db, hclean => by
    obtain ⟨rs, hrs⟩ := runIngest_receipts calls (c.step K db)
      fun c' hc' => hclean c' (List.mem_cons_of_mem c hc')
    cases c with
    | cleanup now second => exact absurd rfl (hclean _ List.mem_cons_self now second)
    | accept t a batch policy now =>
      obtain ⟨rs', hrs'⟩ := acceptIngest_receipts (K := K) t a batch policy now db
      refine ⟨rs' ++ rs, ?_⟩
      rw [← List.append_assoc, ← hrs']
      exact hrs

/-- As long as nothing is cleaned up, what a run inserted keeps its receipt. -/
theorem insertedBy_accepted : ∀ {calls : List IngestCall} {db : HubDB} {n : IngestEvent},
    (∀ c ∈ calls, ∀ now second, c ≠ .cleanup now second) →
    (tenant, agent, n) ∈ insertedBy K calls db →
    AcceptedBefore K tenant agent [n] (runIngest K calls db)
  | [], db, n, _, h => by cases h
  | c :: calls, db, n, hclean, h => by
    have hrest : ∀ c' ∈ calls, ∀ now second, c' ≠ .cleanup now second :=
      fun c' hc' => hclean c' (List.mem_cons_of_mem c hc')
    rcases List.mem_append.1 h with h | h
    · obtain ⟨rs, hrs⟩ := runIngest_receipts (K := K) calls (c.step K db) hrest
      exact (inserted_accepted h).2.mono hrs
    · change AcceptedBefore K tenant agent [n] (runIngest K calls (c.step K db))
      exact insertedBy_accepted hrest h

/-! ## Replays -/

/-- Copies, each event once, of events that are normal. -/
theorem normalizeEvents_copies : ∀ {es : List IngestEvent} {seen : List String},
    (∀ e ∈ es, inWindow now e.timestamp = true ∧ ∃ e₀ seen₀ now₀,
      normalizeEvent tenant agent now₀ seen₀ e₀ = .ok (e.filled tenant agent)
        ∧ e.Copies tenant agent (e.filled tenant agent)) →
    (es.map (·.eventID)).Nodup → (∀ e ∈ es, e.eventID ∉ seen) →
    normalizeEvents tenant agent now seen es = .ok (es.map (·.filled tenant agent))
  | [], seen, _, _, _ => rfl
  | e :: es, seen, h, hn, hseen => by
    rw [List.map_cons, List.nodup_cons] at hn
    obtain ⟨hw, e₀, seen₀, now₀, he, hc⟩ := h e List.mem_cons_self
    have hes : normalizeEvents tenant agent now (e.eventID :: seen) es
        = .ok (es.map (·.filled tenant agent)) := by
      refine normalizeEvents_copies (fun e' he' => h e' (List.mem_cons_of_mem e he')) hn.2 ?_
      intro e' he' hmem
      rcases List.mem_cons.1 hmem with heq | hmem
      · exact hn.1 (heq ▸ List.mem_map_of_mem he')
      · exact hseen e' (List.mem_cons_of_mem e he') hmem
    rw [normalizeEvents, normalizeEvent_copy hc he (hseen e List.mem_cons_self) hw, hes]
    rfl

/-- The event of a replay is a copy of one the run inserted for the agent, has its receipt, and is in
the window. -/
structure Replays (K : EventCodec) (calls : List IngestCall) (db₀ : HubDB) (tenant agent : String)
    (now : ℤ) (e : IngestEvent) : Prop where
  copy : e.Copies tenant agent (e.filled tenant agent)
  inserted : (tenant, agent, e.filled tenant agent) ∈ insertedBy K calls db₀
  receipt : AcceptedBefore K tenant agent [e.filled tenant agent] (runIngest K calls db₀)
  window : inWindow now e.timestamp = true

/-- A batch of replays is answered with `duplicate` for each event, and nothing changes, just when no
event is in it twice. -/
theorem replay_known_iff (K : EventCodec) (calls : List IngestCall) (db₀ : HubDB)
    (tenant agent : String) (batch : IngestBatch) (policy : IngestPolicy) (now : ℤ)
    (hschema : batch.schemaVersion = ingestSchema) (hne : batch.events ≠ [])
    (hlen : batch.events.length ≤ maxBatchEvents) (hv : policy.validate = .ok ())
    (h : ∀ e ∈ batch.events, Replays K calls db₀ tenant agent now e) :
    (runIngest K calls db₀).acceptIngest K tenant agent batch policy now
        = (runIngest K calls db₀, .ok (batch.events.map fun e => ⟨e.eventID, .duplicate⟩))
      ↔ (batch.events.map (·.eventID)).Nodup := by
  obtain ⟨e, he⟩ := List.exists_mem_of_ne_nil _ hne
  obtain ⟨b, -, now₀, -, b', hb, -⟩ := insertedBy_call (h e he).inserted
  constructor
  · intro hok
    rcases acceptIngest_cases K tenant agent batch policy now (runIngest K calls db₀) with
      ⟨⟨err, herr⟩, -⟩ | ⟨batch', tx, os, hn, -, ha, heq⟩
    · rw [hok] at herr
      cases herr
    · rw [heq, Prod.mk.injEq, Except.ok.injEq] at hok
      have hids := acceptEvents_eventIDs K ha
      rw [hok.2, List.map_map] at hids
      have hnd := (normalizeEvents_nodup (normalizeIngest_ok hn).2.1).1
      rw [← hids] at hnd
      exact hnd
  · intro hids
    have hevents : normalizeEvents tenant agent now [] batch.events
        = .ok (batch.events.map (·.filled tenant agent)) := by
      refine normalizeEvents_copies (fun e he => ⟨(h e he).window, ?_⟩) hids (by simp)
      obtain ⟨b, -, now₀, -, b', hb, hmem⟩ := insertedBy_call (h e he).inserted
      obtain ⟨e₀, -, seen₀, he₀⟩ := normalizeEvents_mem (normalizeIngest_ok hb).2.1 _ hmem
      exact ⟨e₀, seen₀, now₀, he₀, (h e he).copy⟩
    have hn : normalizeIngest batch tenant agent now
        = .ok ⟨batch.schemaVersion, batch.events.map (·.filled tenant agent)⟩ := by
      unfold normalizeIngest at hb ⊢
      split_ifs at hb with hscope
      simp only [not_or] at hscope
      rw [if_neg, hevents]
      simp only [not_or]
      exact ⟨hscope.1, hscope.2.1, hscope.2.2.1, not_not.2 hschema,
        by simpa using hne, not_lt.2 hlen⟩
    have haccepted : AcceptedBefore K tenant agent (batch.events.map (·.filled tenant agent))
        (runIngest K calls db₀) := by
      intro n hmem
      obtain ⟨e, he, rfl⟩ := List.mem_map.1 hmem
      exact (h e he).receipt _ (List.mem_singleton_self _)
    simp only [HubDB.acceptIngest, hn, hv, acceptIngest, Table.transact,
      acceptEvents_known haccepted, List.map_map]
    rfl

/-- Room for one event a day. -/
def oneADay : IngestPolicy := ⟨1, maxBatchBytes, 1, maxBatchBytes⟩

def oneAccepted : List IngestCall :=
  [.accept "tenant-a" "agent-a" ⟨ingestSchema, [sampleEvent]⟩ oneADay sampleMetric.timestamp]

theorem replays_sample :
    Replays sampleCodec oneAccepted .empty "tenant-a" "agent-a" sampleMetric.timestamp
      sampleEvent where
  copy := ⟨rfl, by decide, by decide⟩
  inserted := by decide +kernel
  receipt := insertedBy_accepted (by simp [oneAccepted]) (by decide +kernel)
  window := by decide +kernel

/-- The day's budget is used up, and the replay is known. -/
theorem replay_known_iff_sample :
    ((runIngest sampleCodec oneAccepted .empty).acceptIngest sampleCodec "tenant-a" "agent-a"
        ⟨ingestSchema, [{ sampleEvent with eventID := "event-2", sequence := 2 }]⟩ oneADay
        sampleMetric.timestamp).2 = .error .acceptedBudget
      ∧ (runIngest sampleCodec oneAccepted .empty).acceptIngest sampleCodec "tenant-a" "agent-a"
          ⟨ingestSchema, [sampleEvent]⟩ oneADay sampleMetric.timestamp
        = (runIngest sampleCodec oneAccepted .empty, .ok [⟨"event-1", .duplicate⟩]) := by
  refine ⟨by decide +kernel, ?_⟩
  refine (replay_known_iff sampleCodec oneAccepted .empty "tenant-a" "agent-a"
    ⟨ingestSchema, [sampleEvent]⟩ oneADay sampleMetric.timestamp rfl (by decide) (by decide)
    (by decide +kernel) ?_).2 (by decide)
  intro e he
  rw [List.mem_singleton.1 he]
  exact replays_sample

/-- The same event twice in a batch is refused, although it has its receipt. -/
theorem replay_twice_refused :
    Replays sampleCodec oneAccepted .empty "tenant-a" "agent-a" sampleMetric.timestamp sampleEvent
      ∧ ((runIngest sampleCodec oneAccepted .empty).acceptIngest sampleCodec "tenant-a" "agent-a"
          ⟨ingestSchema, [sampleEvent, sampleEvent]⟩ oneADay sampleMetric.timestamp).2
        = .error (.invalid "ingest: invalid or repeated event identity") :=
  ⟨replays_sample, by decide +kernel⟩

end WMonitor
