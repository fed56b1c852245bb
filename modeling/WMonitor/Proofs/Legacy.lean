import WMonitor.Proofs.Delivery

/-!
# Old records on both paths

A record of an old queue goes to the Hub in a batch of the agent, which drops its tenant, or as it is
through the compatibility endpoint. Both give it the same identity, and the Hub fills in the same
owner, so that the two events have one normal form: what was accepted on one path is a duplicate on
the other.
-/

namespace WMonitor

variable (W : Wire)

/-- What the agent encodes is read back as it was. -/
def Wire.RoundTrips : Prop :=
  ∀ batch body, W.encodeBatch batch = .ok body → body.length ≤ maxBatchBytes →
    decodeIngest W.parseBatch body = .ok batch ∧ W.unmarshalBatch body = .ok batch

/-- An old record whose row names no tenant, or this one. -/
def Wire.LegacyRecord (tenant : String) (e : SpoolEntry) : Prop :=
  (e.payloadType = "metric" ∧ ∃ m, decodeIngest W.parseMetric e.raw = .ok m
      ∧ (m.tenantID = "" ∨ m.tenantID = tenant))
    ∨ (e.payloadType = "process" ∧ ∃ p, decodeIngest W.parseProcess e.raw = .ok p
      ∧ (p.tenantID = "" ∨ p.tenantID = tenant))

/-- The event of an old record with this identity and row. -/
def Wire.legacyEvent (identity : String) (metric : Option MetricRow) (process : Option ProcessRow) :
    IngestEvent :=
  let hash := W.sha256 (encodeText identity.toList)
  ⟨"legacy-" ++ hexEncode hash, "legacy", bigEndian (hash.take 8) % 2 ^ 63 ||| 1, metric, process⟩

/-- The requests that carry these records: the agent's batch of them, or one of them alone. -/
inductive Wire.Carries : List SpoolEntry → IngestRequest → Prop
  | legacy (e : SpoolEntry) : Carries [e] ⟨true, true, e.payloadType, some e.raw⟩
  | batch {entries : List SpoolEntry} {body : List UInt8} (type : String)
      (h : W.batchBody entries = .ok body) : Carries entries ⟨true, false, type, some body⟩

/-! ## One normal form -/

/-- The events of both paths. -/
structure Wire.Twins (tenant : String) (e : SpoolEntry) (sent posted : IngestEvent) : Prop where
  bounded : e.raw.length ≤ maxBatchBytes
  agent : W.spooledEvent e.payloadType e.raw = .ok sent
  hub : W.legacyBatch e.payloadType e.raw = .ok ⟨ingestSchema, [posted]⟩
  eventID : sent.eventID = posted.eventID
  bootID : sent.bootID = posted.bootID
  sequence : sent.sequence = posted.sequence
  timestamp : sent.timestamp = posted.timestamp
  identified : ∀ seen, sent.identified seen = posted.identified seen
  row : ∀ agent, normalizeRow tenant agent sent = normalizeRow tenant agent posted

variable {W} {tenant : String} {e : SpoolEntry}

theorem admitted_metric {m : MetricRow} (h : m.tenantID = "" ∨ m.tenantID = tenant) (agent : String) :
    ({ m with tenantID := "" } : MetricRow).admitted tenant agent = m.admitted tenant agent := by
  unfold MetricRow.admitted
  rcases h with h | h <;> simp [h]

theorem admitted_process {p : ProcessRow} (h : p.tenantID = "" ∨ p.tenantID = tenant)
    (agent : String) :
    ({ p with tenantID := "" } : ProcessRow).admitted tenant agent = p.admitted tenant agent := by
  unfold ProcessRow.admitted
  rcases h with h | h <;> simp [h]

theorem decodeIngest_ok {α : Type} {parse : List UInt8 → Except String α} {body : List UInt8} {a : α}
    (h : decodeIngest parse body = .ok a) : body.length ≤ maxBatchBytes := by
  unfold decodeIngest at h
  split_ifs at h with hlen
  omega

theorem Wire.LegacyRecord.twins (h : W.LegacyRecord tenant e) :
    ∃ sent posted, W.Twins tenant e sent posted := by
  rcases h with ⟨htype, m, hm, htenant⟩ | ⟨htype, p, hp, htenant⟩
  · let identity := "metric:" ++ formatRFC3339Nano m.timestamp
    refine ⟨W.legacyEvent identity (some { m with tenantID := "" }) none,
      W.legacyEvent identity (some m) none, decodeIngest_ok hm, ?_, ?_, rfl, rfl, rfl, rfl, fun _ => rfl,
      fun agent => ?_⟩
    · simp only [Wire.spooledEvent, Wire.spooledLegacy, htype, hm]
      rfl
    · simp only [Wire.legacyBatch, htype, hm]
      rfl
    · simp only [normalizeRow, Wire.legacyEvent, admitted_metric htenant]
      rfl
  · let identity := "process:" ++ formatRFC3339Nano p.timestamp ++ ":" ++ String.ofList (itoa p.pid)
    refine ⟨W.legacyEvent identity none (some { p with tenantID := "" }),
      W.legacyEvent identity none (some p), decodeIngest_ok hp, ?_, ?_, rfl, rfl, rfl, rfl, fun _ => rfl,
      fun agent => ?_⟩
    · simp only [Wire.spooledEvent, Wire.spooledLegacy, htype, hp]
      rfl
    · simp only [Wire.legacyBatch, htype, hp]
      rfl
    · simp only [normalizeRow, Wire.legacyEvent, admitted_process htenant]

theorem Wire.Twins.normal {sent posted : IngestEvent} (h : W.Twins tenant e sent posted)
    (agent : String) (now : ℤ) (seen : List String) :
    normalizeEvent tenant agent now seen sent = normalizeEvent tenant agent now seen posted := by
  unfold normalizeEvent
  rw [h.identified, h.row]

/-! ## What a request carries -/

theorem mem_spooledEvents {sent : IngestEvent} (hsent : W.spooledEvent e.payloadType e.raw = .ok sent) :
    ∀ {entries : List SpoolEntry} {events : List IngestEvent},
      W.spooledEvents entries = .ok events → e ∈ entries → sent ∈ events
  | [], events, _, he => by cases he
  | e' :: entries, events, h, he => by
    simp only [Wire.spooledEvents] at h
    obtain ⟨event, hevent, h⟩ := Table.ok_of_bind h
    obtain ⟨rest, hrest, h⟩ := Table.ok_of_bind h
    cases h
    rcases List.mem_cons.1 he with rfl | he
    · rw [hsent] at hevent
      cases hevent
      exact List.mem_cons_self
    · exact List.mem_cons_of_mem event (mem_spooledEvents hsent hrest he)

theorem batchBody_ok {entries : List SpoolEntry} {body : List UInt8}
    (h : W.batchBody entries = .ok body) :
    ∃ events, W.spooledEvents entries = .ok events
      ∧ W.encodeBatch ⟨ingestSchema, events⟩ = .ok body ∧ body.length ≤ maxBatchBytes := by
  unfold Wire.batchBody at h
  obtain ⟨events, hevents, h⟩ := Table.ok_of_bind h
  rcases hb : W.encodeBatch ⟨ingestSchema, events⟩ with e | body' <;> rw [hb] at h
  · cases h
  · dsimp only at h
    split_ifs at h with hlen
    · cases h
    · cases h
      exact ⟨events, hevents, hb, not_lt.1 hlen⟩

/-- A request that carries the record is read as a batch with one of the two events. -/
theorem Wire.Carries.read (hW : W.RoundTrips) {sent posted : IngestEvent}
    (h : W.Twins tenant e sent posted) {entries : List SpoolEntry} {req : IngestRequest}
    (hc : W.Carries entries req) (he : e ∈ entries) :
    ∃ body raw event, req.post = true ∧ req.body = some body ∧ body.length ≤ maxBatchBytes
      ∧ W.readBatch req body = .ok raw ∧ event ∈ raw.events ∧ (event = sent ∨ event = posted)
      ∧ (entries = [e] → raw = ⟨ingestSchema, [event]⟩) := by
  cases hc with
  | legacy e' =>
    obtain rfl := List.mem_singleton.1 he
    refine ⟨e.raw, ⟨ingestSchema, [posted]⟩, posted, rfl, rfl, h.bounded, ?_,
      List.mem_singleton_self _, .inr rfl, fun _ => rfl⟩
    simp only [Wire.readBatch, if_true, h.hub]
    rfl
  | @batch _ body type hb =>
    obtain ⟨events, hevents, hencode, hlen⟩ := batchBody_ok hb
    refine ⟨body, ⟨ingestSchema, events⟩, sent, rfl, rfl, hlen, ?_,
      mem_spooledEvents h.agent hevents he, .inl rfl, ?_⟩
    · simp only [Wire.readBatch, Bool.false_eq_true, if_false, (hW _ _ hencode hlen).1]
      rfl
    · rintro rfl
      simp only [Wire.spooledEvents, h.agent] at hevents
      cases hevents
      rfl

/-- A request that reaches `AcceptIngest` and carries the record has its normal form in its batch. -/
theorem Wire.Carries.normal (hW : W.RoundTrips) {principal : Principal} {sent posted : IngestEvent}
    (h : W.Twins principal.tenantID e sent posted) {entries : List SpoolEntry} {r : Reception}
    {req : IngestRequest} {batch : IngestBatch} (hc : W.Carries entries req) (he : e ∈ entries)
    (hr : r.Reaches W principal req batch) :
    ∃ n ∈ batch.events, (entries = [e] → batch = ⟨ingestSchema, [n]⟩)
      ∧ ∃ seen, normalizeEvent principal.tenantID principal.agentID r.receivedAt seen sent = .ok n := by
  obtain ⟨body, raw, event, -, hbody, -, hread, hmem, hevent, hone⟩ := hc.read hW h he
  obtain ⟨body', raw', hbody', -, hread', hnorm⟩ := hr.read
  rw [hbody] at hbody'
  cases hbody'
  rw [hread] at hread'
  cases hread'
  obtain ⟨n, hn, seen, hns⟩ := mem_normalizeEvents (normalizeIngest_ok hnorm).2.1 hmem
  have hsent : normalizeEvent principal.tenantID principal.agentID r.receivedAt seen sent = .ok n := by
    rcases hevent with rfl | rfl
    · exact hns
    · rw [h.normal]
      exact hns
  refine ⟨n, hn, fun hentries => ?_, seen, hsent⟩
  rw [hone hentries] at hnorm
  obtain ⟨hid, hrow, hw⟩ := normalizeEvent_ok hns
  have := normalizeIngest_one hnorm (normalizeEvent_again hns r.receivedAt hw).1
  rw [this] at hnorm
  exact (Except.ok.inj hnorm).symm

/-! ## Replays -/

/-- The principal may send, and nothing fails. -/
structure Reception.Serves (r : Reception) (principal : Principal) : Prop where
  auth : r.auth = .ok principal
  kind : principal.kind = kindAgent
  agent : principal.agentID ≠ ""
  admitted : r.admitted = true
  available : r.available = true
  pressure : r.pressure ≠ some true
  policy : r.policy.validate = .ok ()
  fault : r.fault = .none

variable {principal : Principal} {n : IngestEvent} {db : HubDB} {r : Reception} {req : IngestRequest}

/-- The tables and the status after a request whose whole batch was accepted before. -/
theorem receive_known {batch : IngestBatch} (hr : r.Reaches W principal req batch)
    (hknown : AcceptedBefore W.toEventCodec principal.tenantID principal.agentID batch.events db) :
    (receiveBatch W r req db).1 = db ∧ (receiveBatch W r req db).2.status ≠ 409 := by
  rw [hr.receive]
  obtain ⟨body, raw, -, -, -, hnorm⟩ := hr.read
  have haccept : (db.acceptIngest W.toEventCodec principal.tenantID principal.agentID batch r.policy
      r.acceptedAt).1 = db ∧ (r.answer (db.acceptIngest W.toEventCodec principal.tenantID
      principal.agentID batch r.policy r.acceptedAt).2).status ≠ 409 := by
    unfold HubDB.acceptIngest
    rcases hn : normalizeIngest batch principal.tenantID principal.agentID r.acceptedAt with
      err | batch'
    · refine ⟨rfl, ?_⟩
      have herr : err ≠ .eventConflict := by
        unfold normalizeIngest at hn
        split_ifs at hn
        · cases hn
          simp
        · split at hn
          · rename_i err' herr'
            cases hn
            exact normalizeEvents_error herr'
          · cases hn
      rcases err with _ | _ | _ | _ | _ <;> simp [Reception.answer] at herr ⊢
    rcases hv : r.policy.validate with err | u
    · refine ⟨rfl, ?_⟩
      unfold IngestPolicy.validate at hv
      split_ifs at hv
      cases hv
      simp [Reception.answer]
    · rw [← normalizeIngest_normal hnorm hn] at hknown
      simp [acceptIngest, Table.transact, acceptEvents_known hknown, Reception.answer]
  unfold Reception.accept
  dsimp only
  rcases r.fault with _ | _ | _
  · exact haccept
  · exact ⟨rfl, by simp⟩
  · exact ⟨haccept.1, by simp⟩

theorem receive_acked {batch : IngestBatch} (hr : r.Reaches W principal req batch)
    (hmem : n ∈ batch.events)
    (hknown : AcceptedBefore W.toEventCodec principal.tenantID principal.agentID [n] db) {ack : Ack}
    (hack : (receiveBatch W r req db).2.ack = some ack) :
    (n.eventID, "duplicate") ∈ ack.outcomes
      ∧ ∀ o ∈ ack.outcomes, o.1 = n.eventID → o.2 = "duplicate" := by
  rw [hr.receive] at hack
  obtain ⟨body, raw, -, -, -, hnorm⟩ := hr.read
  unfold Reception.accept at hack
  dsimp only at hack
  rcases hf : r.fault with _ | _ | _ <;> rw [hf] at hack
  · obtain ⟨outs, houts, rfl⟩ := Reception.answer_ack hack
    rcases acceptIngest_cases W.toEventCodec principal.tenantID principal.agentID batch r.policy
      r.acceptedAt db with ⟨⟨err, he⟩, -⟩ | ⟨batch', tx, os, hn, -, ha, he⟩
    · exact absurd (he.symm.trans houts) (by simp)
    rw [he] at houts
    cases houts
    rw [normalizeIngest_normal hnorm hn] at ha
    have hdup := acceptEvents_duplicate hknown (normalizeEvents_nodup (normalizeIngest_ok hnorm).2.1).1
      hmem ha
    have hids := acceptEvents_eventIDs W.toEventCodec ha
    have hin : n.eventID ∈ outs.map (·.eventID) := by
      rw [hids]
      exact List.mem_map_of_mem hmem
    obtain ⟨o, ho, hoid⟩ := List.mem_map.1 hin
    constructor
    · refine List.mem_map.2 ⟨o, ho, ?_⟩
      rw [hoid, hdup o ho hoid]
      rfl
    · intro o' ho' hid
      obtain ⟨o'', ho'', rfl⟩ := List.mem_map.1 ho'
      rw [hdup o'' ho'' hid]
      rfl
  · cases hack
  · cases hack

theorem receive_replay {now : ℤ} {seen : List String} {sent posted : IngestEvent}
    (hW : W.RoundTrips) (h : W.Twins principal.tenantID e sent posted)
    {b b' : IngestBatch} (hb : normalizeIngest b principal.tenantID principal.agentID now = .ok b')
    (hn : normalizeEvent principal.tenantID principal.agentID now seen sent = .ok n)
    (hknown : AcceptedBefore W.toEventCodec principal.tenantID principal.agentID [n] db)
    (hc : W.Carries [e] req) (hs : r.Serves principal)
    (hw : inWindow r.receivedAt sent.timestamp = true)
    (hw' : inWindow r.acceptedAt sent.timestamp = true) :
    receiveBatch W r req db
      = (db, { status := 202, ack := some ⟨"accepted", [(sent.eventID, "duplicate")]⟩ }) := by
  obtain ⟨body, raw, event, hpost, hbody, hlen, hread, -, hevent, hone⟩ :=
    hc.read hW h (List.mem_singleton_self e)
  rw [hone rfl] at hread
  have hfirst := normalizeEvent_again hn r.receivedAt hw
  have hagain := (normalizeEvent_again hn r.acceptedAt hw').2
  have hevent' : normalizeEvent principal.tenantID principal.agentID r.receivedAt [] event = .ok n := by
    rcases hevent with rfl | rfl
    · exact hfirst.1
    · rw [← h.normal]
      exact hfirst.1
  have hreach : r.Reaches W principal req ⟨ingestSchema, [n]⟩ :=
    ⟨hs.auth, hpost, hs.kind, hs.agent, hs.admitted, hs.available, hs.pressure, body, _, hbody, hlen,
      hread, normalizeIngest_one hb hevent'⟩
  rw [hreach.receive]
  unfold Reception.accept HubDB.acceptIngest
  simp only [normalizeIngest_one hb hagain, hs.policy, hs.fault, acceptIngest, Table.transact,
    acceptEvents_known hknown, Reception.answer, List.map_cons, List.map_nil, OutcomeStatus.text]
  rw [(normalizeRow_ok (normalizeEvent_ok hn).2.1).2.2.1]

/-- An old record is one event on both paths, under the same identity and with the same normal form,
so with the same content. Once it is accepted on either, and as long as no receipt is cleaned up, a
replay on any of them is acknowledged as a duplicate, leaves every batch it comes in as it is without
it, and alone changes nothing and does not conflict. -/
theorem legacy_replay (W : Wire) (hW : W.RoundTrips) (principal : Principal) (e : SpoolEntry)
    (he : W.LegacyRecord principal.tenantID e) :
    ∃ sent posted, W.spooledEvent e.payloadType e.raw = .ok sent
      ∧ W.legacyBatch e.payloadType e.raw = .ok ⟨ingestSchema, [posted]⟩
      ∧ sent.eventID = posted.eventID ∧ sent.bootID = posted.bootID
      ∧ sent.sequence = posted.sequence
      ∧ (∀ now seen, normalizeEvent principal.tenantID principal.agentID now seen sent
          = normalizeEvent principal.tenantID principal.agentID now seen posted)
      ∧ ∀ (entries entries' : List SpoolEntry) (r r' : Reception) (req req' : IngestRequest)
          (db : HubDB) (later : List (Reception × IngestRequest)),
        e ∈ entries → e ∈ entries' → W.Carries entries req → W.Carries entries' req' →
        r.auth = .ok principal → r'.auth = .ok principal → r.Commits W req db →
        ∀ hub, hub = receiveAll W later (receiveBatch W r req db).1 →
        (∀ ack, (receiveBatch W r' req' hub).2.ack = some ack →
          (sent.eventID, "duplicate") ∈ ack.outcomes
            ∧ ∀ o ∈ ack.outcomes, o.1 = sent.eventID → o.2 = "duplicate")
        ∧ (∀ now seen n, normalizeEvent principal.tenantID principal.agentID now seen sent = .ok n →
          ∀ policy t before after,
            (acceptEvents W.toEventCodec principal.tenantID principal.agentID policy t
                (before ++ n :: after) hub).map Prod.fst
              = (acceptEvents W.toEventCodec principal.tenantID principal.agentID policy t
                (before ++ after) hub).map Prod.fst)
        ∧ (entries' = [e] → (receiveBatch W r' req' hub).1 = hub
          ∧ (receiveBatch W r' req' hub).2.status ≠ 409
          ∧ (r'.Serves principal → inWindow r'.receivedAt sent.timestamp = true →
            inWindow r'.acceptedAt sent.timestamp = true →
            receiveBatch W r' req' hub = (hub,
              { status := 202, ack := some ⟨"accepted", [(sent.eventID, "duplicate")]⟩ }))) := by
  obtain ⟨sent, posted, h⟩ := he.twins
  refine ⟨sent, posted, h.agent, h.hub, h.eventID, h.bootID, h.sequence,
    h.normal principal.agentID, ?_⟩
  rintro entries entries' r r' req req' db later hmem hmem' hc hc' hauth hauth' hcommit hub rfl
  obtain ⟨batch, hreach, hrecorded⟩ := hcommit.recorded W hauth
  obtain ⟨n, hn, -, seen, hsent⟩ := hc.normal hW h hmem hreach
  obtain ⟨rs, hrs⟩ := receiveAll_receipts W later (receiveBatch W r req db).1
  have hknown : AcceptedBefore W.toEventCodec principal.tenantID principal.agentID [n]
      (receiveAll W later (receiveBatch W r req db).1) := by
    refine AcceptedBefore.mono (fun n' hn' => ?_) hrs
    rw [List.mem_singleton.1 hn']
    exact hrecorded n hn
  obtain ⟨-, hrow, -⟩ := normalizeEvent_ok hsent
  have hunique : ∀ {now seen m}, normalizeEvent principal.tenantID principal.agentID now seen sent
      = .ok m → m = n := by
    intro now seen m hm
    have hrow' := (normalizeEvent_ok hm).2.1
    rw [hrow] at hrow'
    cases hrow'
    rfl
  have hid : n.eventID = sent.eventID := (normalizeRow_ok hrow).2.2.1
  refine ⟨fun ack hack => ?_, fun now seen m hm policy t before after => ?_, ?_⟩
  · rcases receiveBatch_reaches W r' req' (receiveAll W later (receiveBatch W r req db).1) hauth' with
      ⟨batch', hreach'⟩ | ⟨-, -, -, hnone⟩
    · obtain ⟨m, hm, -, seen', hsent'⟩ := hc'.normal hW h hmem' hreach'
      obtain rfl := hunique hsent'
      rw [← hid]
      exact receive_acked hreach' hm hknown hack
    · rw [hnone] at hack
      cases hack
  · obtain rfl := hunique hm
    exact acceptEvents_skip policy t after before hknown
  · rintro rfl
    obtain ⟨body, raw, -, -, -, hnorm⟩ := hreach.read
    have halone : (receiveBatch W r' req' (receiveAll W later (receiveBatch W r req db).1)).1
          = receiveAll W later (receiveBatch W r req db).1
        ∧ (receiveBatch W r' req' (receiveAll W later (receiveBatch W r req db).1)).2.status
          ≠ 409 := by
      rcases receiveBatch_reaches W r' req' (receiveAll W later (receiveBatch W r req db).1) hauth'
        with ⟨batch', hreach'⟩ | ⟨hsame, -, hno, -⟩
      · obtain ⟨m, -, hbatch, seen', hsent'⟩ := hc'.normal hW h hmem' hreach'
        obtain rfl := hunique hsent'
        refine receive_known hreach' ?_
        rw [hbatch rfl]
        exact hknown
      · exact ⟨hsame, hno⟩
    exact ⟨halone.1, halone.2, fun hs hw hw' =>
      receive_replay hW h hnorm hsent hknown hc' hs hw hw'⟩

/-! ## A sample -/

/-- The old record of a metric of `tenant-a`; what it leaves out is zero. -/
def recordText : String :=
  "\x7b\"Timestamp\":\"2026-01-01T00:00:00Z\",\"TenantID\":\"tenant-a\"," ++
  "\"ServerID\":\"agent-a\",\"CPUPct\":20,\"MemPct\":30\x7d"

def sampleRecord : SpoolEntry :=
  ⟨"metric", (Json.parse recordText.toList).getD .null, 1767225600⟩

/-- Its event with the tenant that is filled in. -/
def recordEvent (tenant : String) : IngestEvent :=
  ⟨"legacy-2ad9601b8be6df757738d9d019746cafa48b0e0c8440983b74fb7e23e1f6680a", "legacy",
    3087604690966732661, some { sampleMetric with tenantID := tenant }, none⟩

def recordEventText (tenant : String) : String :=
  "\x7b\"event_id\":\"legacy-2ad9601b8be6df757738d9d019746cafa48b0e0c8440983b74fb7e23e1f6680a\"," ++
  "\"boot_id\":\"legacy\",\"sequence\":3087604690966732661," ++
  "\"metric\":\x7b\"ID\":0,\"Timestamp\":\"2026-01-01T00:00:00Z\"," ++
  "\"TenantID\":\"" ++ tenant ++ "\",\"ServerID\":\"agent-a\",\"Hostname\":\"\"," ++
  "\"CPUPct\":20,\"MemPct\":30,\"DiskFreeGB\":0,\"NetSentBytes\":0," ++
  "\"NetRecvBytes\":0,\"CPUCores\":0,\"MemTotalGB\":0,\"DiskTotalGB\":0," ++
  "\"DiskReadOps\":0,\"DiskWriteOps\":0,\"DiskIOPS\":0,\"NetMBps\":0," ++
  "\"ConcurrentUsers\":0,\"NetSentExternal\":0,\"NetRecvExternal\":0," ++
  "\"NetSentInternal\":0,\"NetRecvInternal\":0\x7d\x7d"

/-- The body of the agent's batch of it. -/
def recordBatchText : List UInt8 :=
  ("\x7b\"schema_version\":\"zeus.ingest.v1\",\"events\":[" ++ recordEventText ""
    ++ "]\x7d").toUTF8.data.toList

/-- The real texts and digests of the sample record. -/
def recordWire : Wire where
  marshal event :=
    if event = recordEvent "tenant-a" then .ok (recordEventText "tenant-a").toUTF8.data.toList
    else .error "not in the sample"
  sha256 text :=
    if text = "metric:2026-01-01T00:00:00Z".toUTF8.data.toList then
      [42, 217, 96, 27, 139, 230, 223, 117, 119, 56, 217, 208, 25, 116, 108, 175, 164, 139, 14, 12,
        132, 64, 152, 59, 116, 251, 126, 35, 225, 246, 104, 10]
    else if text = (recordEventText "tenant-a").toUTF8.data.toList then
      [238, 179, 63, 118, 186, 167, 255, 176, 251, 37, 38, 156, 169, 223, 55, 54, 215, 37, 155, 95,
        182, 109, 171, 152, 217, 12, 184, 193, 14, 43, 65, 254]
    else []
  parseMetric body :=
    if body = recordText.toUTF8.data.toList then .ok { sampleMetric with tenantID := "tenant-a" }
    else .error "not in the sample"
  parseProcess _ := .error "not in the sample"
  parseEvent _ := .error "not in the sample"
  parseBatch body :=
    if body = recordBatchText then .ok ⟨ingestSchema, [recordEvent ""]⟩
    else .error "not in the sample"
  unmarshalBatch body :=
    if body = recordBatchText then .ok ⟨ingestSchema, [recordEvent ""]⟩
    else .error "not in the sample"
  encodeBatch batch :=
    if batch = ⟨ingestSchema, [recordEvent ""]⟩ then .ok recordBatchText
    else .error "not in the sample"

def samplePrincipal : Principal :=
  ⟨"tenant-a", "agent-a", "token-1", kindAgent, scopeIngest, 0⟩

/-- A Hub that serves the sample principal at a time. -/
def sampleReception (now : ℤ) : Reception :=
  ⟨.ok samplePrincipal, true, true, some false, defaultIngestPolicy, .none, now, now, now⟩

/-- The tables after the record was posted to the compatibility endpoint. -/
def recordHub : HubDB :=
  (receiveBatch recordWire (sampleReception sampleMetric.timestamp)
    ⟨true, true, "metric", some sampleRecord.raw⟩ .empty).1

theorem recordWire_roundTrips : recordWire.RoundTrips := by
  intro batch body h hlen
  simp only [recordWire] at h
  split_ifs at h with hb
  subst hb
  cases h
  have hne : ¬ (recordBatchText.length = 0 ∨ recordBatchText.length > maxBatchBytes) := by
    decide +kernel
  simp only [decodeIngest, if_neg hne, recordWire, if_true]
  exact ⟨trivial, trivial⟩

/-- The record was posted, its reply was lost, and a minute later the upgraded agent sends it in a
batch. -/
theorem legacy_replay_sample :
    recordHub.metrics.length = 1
      ∧ receiveBatch recordWire (sampleReception (sampleMetric.timestamp + minute))
          ⟨true, false, "", some recordBatchText⟩ recordHub
        = (recordHub, { status := 202, ack := some ⟨"accepted",
            [("legacy-2ad9601b8be6df757738d9d019746cafa48b0e0c8440983b74fb7e23e1f6680a",
              "duplicate")]⟩ }) := by
  have hdecode : decodeIngest recordWire.parseMetric sampleRecord.raw
      = .ok { sampleMetric with tenantID := "tenant-a" } := by decide +kernel
  obtain ⟨sent, posted, hsent, -, -, -, -, -, hreplay⟩ := legacy_replay recordWire
    recordWire_roundTrips samplePrincipal sampleRecord (.inl ⟨rfl, _, hdecode, .inr rfl⟩)
  have hevent : recordWire.spooledEvent "metric" sampleRecord.raw = .ok (recordEvent "") := by
    decide +kernel
  obtain rfl := Except.ok.inj (hevent.symm.trans hsent)
  have hbody : recordWire.batchBody [sampleRecord] = .ok recordBatchText := by decide +kernel
  refine ⟨by decide +kernel, ?_⟩
  obtain ⟨-, -, halone⟩ := hreplay [sampleRecord] [sampleRecord]
    (sampleReception sampleMetric.timestamp) (sampleReception (sampleMetric.timestamp + minute))
    ⟨true, true, "metric", some sampleRecord.raw⟩ ⟨true, false, "", some recordBatchText⟩ .empty []
    (List.mem_singleton_self _) (List.mem_singleton_self _) (.legacy sampleRecord) (.batch "" hbody)
    rfl rfl ⟨by decide, by decide +kernel⟩ recordHub rfl
  exact (halone rfl).2.2 ⟨rfl, rfl, by decide, rfl, rfl, by decide, rfl, rfl⟩ (by decide) (by decide)

end WMonitor
