import WMonitor.Delivery
import WMonitor.Proofs.Receipts

/-!
# What the Hub answers

A request is refused with the tables as they were, or goes to `AcceptIngest` with the batch of its
body normalised (`Reception.reached`). Normalisation does not depend on the clock but for the window,
and is done once and for all: the batch that `AcceptIngest` normalises again stays as it is.
-/

namespace WMonitor

variable {tenant agent : String} {now now' : ℤ}

/-! ## Normalising twice -/

theorem normalizeRow_again {e n : IngestEvent} {ts : ℤ}
    (h : normalizeRow tenant agent e = .ok (n, ts)) :
    normalizeRow tenant agent n = .ok (n, ts) ∧ ∀ seen, n.identified seen = e.identified seen := by
  unfold normalizeRow at h
  split at h
  · rename_i m hm
    split_ifs at h with hadm hcount
    cases h
    have hadm' : ({ m with tenantID := tenant, serverID := agent } : MetricRow).admitted tenant agent
        = true := by
      simp only [Bool.not_eq_true, Bool.not_eq_false', MetricRow.admitted] at hadm ⊢
      simp_all
    refine ⟨?_, fun seen => by simp [IngestEvent.identified, hm]⟩
    simp only [normalizeRow, hadm', Bool.not_true, Bool.false_eq_true, if_false]
    exact if_neg hcount
  · rename_i p hm hp
    split_ifs at h with hadm
    cases h
    have hadm' : ({ p with tenantID := tenant, serverID := agent } : ProcessRow).admitted tenant agent
        = true := by
      simp only [Bool.not_eq_true, Bool.not_eq_false', ProcessRow.admitted] at hadm ⊢
      simp_all
    refine ⟨?_, fun seen => by simp [IngestEvent.identified, hm, hp]⟩
    simp only [normalizeRow, hm, hadm', Bool.not_true, Bool.false_eq_true, if_false]
  · cases h

/-- The normal form of an event is normal whenever it is in the window. -/
theorem normalizeEvent_again {e n : IngestEvent} {seen : List String}
    (h : normalizeEvent tenant agent now seen e = .ok n) :
    ∀ now', inWindow now' e.timestamp = true →
      normalizeEvent tenant agent now' [] e = .ok n ∧ normalizeEvent tenant agent now' [] n = .ok n := by
  intro now' hw
  obtain ⟨hid, hrow, -⟩ := normalizeEvent_ok h
  obtain ⟨hagain, hids⟩ := normalizeRow_again hrow
  have hid' : e.identified [] = true := by
    simp only [IngestEvent.identified] at hid ⊢
    simp_all
  constructor
  · simp only [normalizeEvent, hid', hrow, hw, Bool.not_true, Bool.false_eq_true, if_false, if_true]
  · simp only [normalizeEvent, hids, hid', hagain, hw, Bool.not_true, Bool.false_eq_true, if_false,
      if_true]

theorem normalizeEvents_normal : ∀ {es es' es'' : List IngestEvent} {seen seen' : List String},
    normalizeEvents tenant agent now seen es = .ok es' →
    normalizeEvents tenant agent now' seen' es' = .ok es'' → es'' = es'
  | [], es', es'', seen, seen', h, h' => by
    cases h
    cases h'
    rfl
  | e :: es, es', es'', seen, seen', h, h' => by
    simp only [normalizeEvents] at h
    obtain ⟨n, hn, h⟩ := Table.ok_of_bind h
    obtain ⟨ns, hns, h⟩ := Table.ok_of_bind h
    cases h
    simp only [normalizeEvents] at h'
    obtain ⟨n', hn', h'⟩ := Table.ok_of_bind h'
    obtain ⟨ns', hns', h'⟩ := Table.ok_of_bind h'
    cases h'
    have hrow := (normalizeEvent_ok hn').2.1
    rw [(normalizeRow_again (normalizeEvent_ok hn).2.1).1, Except.ok.injEq, Prod.mk.injEq] at hrow
    rw [← hrow.1, normalizeEvents_normal hns hns']

theorem normalizeIngest_normal {b b' b'' : IngestBatch}
    (h : normalizeIngest b tenant agent now = .ok b')
    (h' : normalizeIngest b' tenant agent now' = .ok b'') : b''.events = b'.events :=
  normalizeEvents_normal (normalizeIngest_ok h).2.1 (normalizeIngest_ok h').2.1

/-- A batch of one event, for a tenant and an agent that a batch was normalised for before. -/
theorem normalizeIngest_one {b b' : IngestBatch} {e n : IngestEvent}
    (h : normalizeIngest b tenant agent now = .ok b')
    (he : normalizeEvent tenant agent now' [] e = .ok n) :
    normalizeIngest ⟨ingestSchema, [e]⟩ tenant agent now' = .ok ⟨ingestSchema, [n]⟩ := by
  unfold normalizeIngest at h
  split_ifs at h with hc
  simp only [not_or] at hc
  have hok : ¬ ((!requireTenant tenant) = true ∨ agent = "" ∨ len agent > 256
      ∨ ingestSchema ≠ ingestSchema ∨ [e].length = 0 ∨ [e].length > maxBatchEvents) := by
    simp only [not_or]
    exact ⟨hc.1, hc.2.1, hc.2.2.1, by simp, by simp, by simp [maxBatchEvents]⟩
  unfold normalizeIngest
  rw [if_neg hok]
  simp only [normalizeEvents, he]
  rfl

theorem normalizeRow_error {e : IngestEvent} {err : IngestError}
    (h : normalizeRow tenant agent e = .error err) : err ≠ .eventConflict := by
  unfold normalizeRow at h
  split at h
  · split_ifs at h <;> cases h <;> simp
  · split_ifs at h
    cases h
    simp
  · cases h
    simp

theorem normalizeEvent_error {e : IngestEvent} {seen : List String} {err : IngestError}
    (h : normalizeEvent tenant agent now seen e = .error err) : err ≠ .eventConflict := by
  unfold normalizeEvent at h
  split_ifs at h
  · cases h
    simp
  · split at h
    · rename_i err' hrow
      cases h
      exact normalizeRow_error hrow
    · split_ifs at h
      cases h
      simp

theorem normalizeEvents_error : ∀ {es : List IngestEvent} {seen : List String} {err : IngestError},
    normalizeEvents tenant agent now seen es = .error err → err ≠ .eventConflict
  | [], seen, err, h => by cases h
  | e :: es, seen, err, h => by
    simp only [normalizeEvents] at h
    rcases hn : normalizeEvent tenant agent now seen e with err' | n <;> rw [hn] at h
    · cases h
      exact normalizeEvent_error hn
    · rcases hns : normalizeEvents tenant agent now (e.eventID :: seen) es with err' | ns <;>
        rw [hns] at h <;> cases h
      exact normalizeEvents_error hns

/-! ## The events of a normalised batch -/

theorem mem_normalizeEvents {e : IngestEvent} :
    ∀ {es es' : List IngestEvent} {seen : List String},
      normalizeEvents tenant agent now seen es = .ok es' → e ∈ es →
      ∃ n ∈ es', ∃ seen', normalizeEvent tenant agent now seen' e = .ok n
  | [], es', seen, h, he => by cases he
  | e' :: es, es', seen, h, he => by
    simp only [normalizeEvents] at h
    obtain ⟨n, hn, h⟩ := Table.ok_of_bind h
    obtain ⟨ns, hns, h⟩ := Table.ok_of_bind h
    cases h
    rcases List.mem_cons.1 he with rfl | he
    · exact ⟨n, List.mem_cons_self, seen, hn⟩
    · obtain ⟨n', hn', hseen⟩ := mem_normalizeEvents hns he
      exact ⟨n', List.mem_cons_of_mem n hn', hseen⟩

theorem normalizeEvents_nodup : ∀ {es es' : List IngestEvent} {seen : List String},
    normalizeEvents tenant agent now seen es = .ok es' →
    (es'.map (·.eventID)).Nodup ∧ ∀ n ∈ es', n.eventID ∉ seen
  | [], es', seen, h => by
    cases h
    simp
  | e :: es, es', seen, h => by
    simp only [normalizeEvents] at h
    obtain ⟨n, hn, h⟩ := Table.ok_of_bind h
    obtain ⟨ns, hns, h⟩ := Table.ok_of_bind h
    cases h
    obtain ⟨hid, hrow, -⟩ := normalizeEvent_ok hn
    have hsame := (normalizeRow_ok hrow).2.2.1
    obtain ⟨hnd, hout⟩ := normalizeEvents_nodup hns
    have hseen : e.eventID ∉ seen := by
      intro hmem
      simp [IngestEvent.identified, hmem] at hid
    refine ⟨?_, fun m hm => ?_⟩
    · rw [List.map_cons, List.nodup_cons, hsame]
      refine ⟨fun hmem => ?_, hnd⟩
      obtain ⟨m, hm, hme⟩ := List.mem_map.1 hmem
      exact hout m hm (hme ▸ List.mem_cons_self)
    · rcases List.mem_cons.1 hm with rfl | hm
      · rwa [hsame]
      · exact fun hmem => hout m hm (List.mem_cons_of_mem _ hmem)

/-! ## Answers -/

variable (W : Wire) {principal : Principal}

/-- What reaches `AcceptIngest`: the principal may send, and this is the batch of its request. -/
structure Reception.Reaches (r : Reception) (principal : Principal) (req : IngestRequest)
    (batch : IngestBatch) : Prop where
  auth : r.auth = .ok principal
  post : req.post = true
  kind : principal.kind = kindAgent
  agent : principal.agentID ≠ ""
  admitted : r.admitted = true
  available : r.available = true
  pressure : r.pressure ≠ some true
  read : ∃ body raw, req.body = some body ∧ body.length ≤ maxBatchBytes
    ∧ W.readBatch req body = .ok raw
    ∧ normalizeIngest raw principal.tenantID principal.agentID r.receivedAt = .ok batch

theorem Reception.Reaches.receive {r : Reception} {req : IngestRequest} {batch : IngestBatch}
    (h : r.Reaches W principal req batch) (db : HubDB) :
    receiveBatch W r req db = r.accept W principal batch db := by
  obtain ⟨body, raw, hbody, hlen, hread, hnorm⟩ := h.read
  have hp : ¬ (principal.kind ≠ kindAgent ∨ principal.agentID = "") := by
    simp [h.kind, h.agent]
  unfold receiveBatch Reception.process
  simp only [h.post, h.auth, if_neg hp, h.admitted, h.available, if_neg h.pressure, hbody,
    if_neg (not_lt.2 hlen), hread, hnorm, Bool.not_true, Bool.false_eq_true, if_false]

/-- A request that does not reach `AcceptIngest` changes nothing and is not acknowledged. -/
theorem receiveBatch_reaches (r : Reception) (req : IngestRequest) (db : HubDB)
    (hauth : r.auth = .ok principal) :
    (∃ batch, r.Reaches W principal req batch)
      ∨ ((receiveBatch W r req db).1 = db ∧ (receiveBatch W r req db).2.status ≠ 202
        ∧ (receiveBatch W r req db).2.status ≠ 409 ∧ (receiveBatch W r req db).2.ack = none) := by
  by_cases hpost : req.post = true
  swap
  · right
    simp [receiveBatch, hpost]
  by_cases hp : principal.kind ≠ kindAgent ∨ principal.agentID = ""
  · right
    simp [receiveBatch, hpost, hauth, hp]
  by_cases had : r.admitted = true
  swap
  · right
    simp [receiveBatch, hpost, hauth, hp, had]
  by_cases hav : r.available = true
  swap
  · right
    simp [receiveBatch, hpost, hauth, hp, had, hav]
  by_cases hpr : r.pressure = some true
  · right
    simp [receiveBatch, hpost, hauth, hp, had, hav, hpr]
  have hrec : receiveBatch W r req db = r.process W principal req db := by
    simp [receiveBatch, hpost, hauth, hp, had, hav, hpr]
  rw [hrec]
  unfold Reception.process
  rcases hbody : req.body with _ | body
  · exact .inr ⟨rfl, by simp, by simp, rfl⟩
  dsimp only
  split_ifs with hlen
  · exact .inr ⟨rfl, by simp, by simp, rfl⟩
  rcases hread : W.readBatch req body with text | raw
  · exact .inr ⟨rfl, by simp, by simp, rfl⟩
  dsimp only
  rcases hnorm : normalizeIngest raw principal.tenantID principal.agentID r.receivedAt with e | batch
  · exact .inr ⟨rfl, by simp, by simp, rfl⟩
  · simp only [not_or, ne_eq, not_not] at hp
    exact .inl ⟨batch, hauth, hpost, hp.1, hp.2, had, hav, hpr, body, raw, hbody, not_lt.1 hlen,
      hread, hnorm⟩

/-- The receipts of a request are added to those before. -/
theorem receiveBatch_receipts (r : Reception) (req : IngestRequest) (db : HubDB) :
    ∃ rs, (receiveBatch W r req db).1.receipts = db.receipts ++ rs := by
  rcases hauth : r.auth with response | principal
  · refine ⟨[], ?_⟩
    rw [List.append_nil]
    unfold receiveBatch
    rw [hauth]
    split_ifs <;> rfl
  rcases receiveBatch_reaches W r req db hauth with ⟨batch, h⟩ | ⟨h, -⟩
  · rw [h.receive]
    obtain ⟨rs, hrs⟩ := acceptIngest_receipts (K := W.toEventCodec) principal.tenantID
      principal.agentID batch r.policy r.acceptedAt db
    unfold Reception.accept
    cases r.fault
    · exact ⟨rs, hrs⟩
    · exact ⟨[], (List.append_nil _).symm⟩
    · exact ⟨rs, hrs⟩
  · exact ⟨[], by rw [h, List.append_nil]⟩

/-- The Hub's tables after one request after another. -/
def receiveAll (reqs : List (Reception × IngestRequest)) (db : HubDB) : HubDB :=
  reqs.foldl (fun db x => (receiveBatch W x.1 x.2 db).1) db

theorem receiveAll_receipts : ∀ (reqs : List (Reception × IngestRequest)) (db : HubDB),
    ∃ rs, (receiveAll W reqs db).receipts = db.receipts ++ rs
  | [], db => ⟨[], (List.append_nil _).symm⟩
  | x :: reqs, db => by
    obtain ⟨rs, hrs⟩ := receiveBatch_receipts W x.1 x.2 db
    obtain ⟨rs', hrs'⟩ := receiveAll_receipts reqs (receiveBatch W x.1 x.2 db).1
    refine ⟨rs ++ rs', ?_⟩
    rw [← List.append_assoc, ← hrs]
    exact hrs'

/-- The batch is accepted, whether or not the answer says so. -/
def Reception.Commits (r : Reception) (req : IngestRequest) (db : HubDB) : Prop :=
  r.fault ≠ .before ∧ (receiveBatch W { r with fault := .none } req db).2.status = 202

theorem Reception.answer_status {r : Reception} {result : Except IngestError (List IngestOutcome)}
    (h : (r.answer result).status = 202) : ∃ outs, result = .ok outs := by
  rcases result with (_ | _ | _ | _ | _) | outs
  any_goals simp [Reception.answer] at h
  exact ⟨outs, rfl⟩

theorem Reception.answer_ack {r : Reception} {result : Except IngestError (List IngestOutcome)}
    {ack : Ack} (h : (r.answer result).ack = some ack) :
    ∃ outs, result = .ok outs ∧ ack = ⟨"accepted", outs.map fun o => (o.eventID, o.status.text)⟩ := by
  rcases result with (_ | _ | _ | _ | _) | outs
  any_goals simp [Reception.answer] at h
  exact ⟨outs, rfl, h.symm⟩

/-- What a request committed is recorded. -/
theorem Reception.Commits.recorded {r : Reception} {req : IngestRequest} {db : HubDB}
    (h : r.Commits W req db) (hauth : r.auth = .ok principal) :
    ∃ batch, r.Reaches W principal req batch
      ∧ AcceptedBefore W.toEventCodec principal.tenantID principal.agentID batch.events
          (receiveBatch W r req db).1 := by
  obtain ⟨hfault, hstatus⟩ := h
  rcases receiveBatch_reaches W { r with fault := .none } req db hauth with
    ⟨batch, hreach⟩ | ⟨-, hno, -⟩
  swap
  · exact absurd hstatus hno
  have hreach' : r.Reaches W principal req batch :=
    ⟨hauth, hreach.post, hreach.kind, hreach.agent, hreach.admitted, hreach.available,
      hreach.pressure, hreach.read⟩
  refine ⟨batch, hreach', ?_⟩
  rw [hreach.receive] at hstatus
  obtain ⟨outs, houts⟩ := Reception.answer_status hstatus
  have hdb : (receiveBatch W r req db).1 = (db.acceptIngest W.toEventCodec principal.tenantID
      principal.agentID batch r.policy r.acceptedAt).1 := by
    rw [hreach'.receive]
    unfold Reception.accept
    rcases hf : r.fault with _ | _ | _
    · rfl
    · exact absurd hf hfault
    · rfl
  rw [hdb]
  rcases acceptIngest_cases W.toEventCodec principal.tenantID principal.agentID batch r.policy
    r.acceptedAt db with ⟨⟨err, he⟩, -⟩ | ⟨batch', tx, os, hn, -, ha, he⟩
  · exact absurd (he.symm.trans houts) (by simp)
  · rw [he]
    obtain ⟨body, raw, -, -, -, hnorm⟩ := hreach'.read
    rw [← normalizeIngest_normal hnorm hn]
    exact (acceptEvents_recorded ha).1

end WMonitor
