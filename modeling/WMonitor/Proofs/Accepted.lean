import WMonitor.Agent
import WMonitor.Proofs.Regroup

/-!
# What the Hub has accepted

As long as no receipt is cleaned up, the receipts are those of the events that were inserted, one for
each, so that no event is inserted twice under one id (`insertedBy_keys_nodup`) and an event whose
receipt is there was inserted (`logged_of_accepted`). A request changes the tables as the call of
`AcceptIngest` does that it stands for.
-/

namespace WMonitor

variable {K : EventCodec} {tenant agent : String} {now : ℤ}

/-! ## The receipts of a run -/

/-- The key of an inserted event's receipt. -/
def logKey (x : String × String × IngestEvent) : String × String × String :=
  (x.1, x.2.1, x.2.2.eventID)

/-- No call of the run is a cleanup. -/
def NoCleanup (calls : List IngestCall) : Prop := ∀ c ∈ calls, ∀ now second, c ≠ .cleanup now second

theorem runIngest_append (calls calls' : List IngestCall) (db : HubDB) :
    runIngest K (calls ++ calls') db = runIngest K calls' (runIngest K calls db) :=
  List.foldl_append

theorem insertedBy_append : ∀ (calls calls' : List IngestCall) (db : HubDB),
    insertedBy K (calls ++ calls') db
      = insertedBy K calls db ++ insertedBy K calls' (runIngest K calls db)
  | [], _, _ => rfl
  | c :: calls, calls', db => by
    simp only [List.cons_append, insertedBy, List.append_assoc]
    rw [insertedBy_append calls calls' (c.step K db)]
    rfl

/-- One transaction adds the receipts of what it inserts, under new keys. -/
theorem step_keys (tenant agent : String) (batch : IngestBatch) (policy : IngestPolicy) (now : ℤ)
    {db : HubDB} (h : (db.receipts.map Receipt.key).Nodup) :
    ((IngestCall.accept tenant agent batch policy now).step K db).receipts.map Receipt.key
        = db.receipts.map Receipt.key
          ++ ((IngestCall.accept tenant agent batch policy now).inserted K db).map logKey
      ∧ (((IngestCall.accept tenant agent batch policy now).step K db).receipts.map
          Receipt.key).Nodup := by
  rcases acceptIngest_cases K tenant agent batch policy now db with
    ⟨⟨err, he⟩, hdb⟩ | ⟨batch', tx', os, hb, -, ha, he⟩
  · have hnil : (IngestCall.accept tenant agent batch policy now).inserted K db = [] := by
      simp only [IngestCall.inserted, he]
      cases normalizeIngest batch tenant agent now <;> rfl
    rw [hnil, IngestCall.step, hdb]
    exact ⟨(List.append_nil _).symm, h⟩
  · rw [IngestCall.inserted, IngestCall.step, he, hb]
    constructor
    · obtain ⟨rs, hrs, hkeys⟩ := (acceptEvents_adds K ha).receipts
      rw [hrs, List.map_append, hkeys, List.map_map]
      rfl
    · refine acceptEvents_induct K (P := fun db _ => (db.receipts.map Receipt.key).Nodup) [] ?_ ha h
      rintro e - body tx tx' - hn - hacc
      rw [hacc.receipts, List.map_append, List.map_cons, List.map_nil]
      refine List.nodup_append.2 ⟨hn, List.nodup_singleton _, ?_⟩
      rintro k hk _ hk' rfl
      obtain ⟨r, hr, rfl⟩ := List.mem_map.1 hk
      have hfresh := hacc.fresh r hr
      rw [Receipt.clash, ← List.mem_singleton.1 hk'] at hfresh
      simp at hfresh

theorem runIngest_keys : ∀ {calls : List IngestCall} {db : HubDB}, NoCleanup calls →
    (db.receipts.map Receipt.key).Nodup →
    (runIngest K calls db).receipts.map Receipt.key
        = db.receipts.map Receipt.key ++ (insertedBy K calls db).map logKey
      ∧ ((runIngest K calls db).receipts.map Receipt.key).Nodup
  | [], db, _, h => ⟨(List.append_nil _).symm, h⟩
  | .cleanup now second :: calls, db, hc, _ => absurd rfl (hc _ List.mem_cons_self now second)
  | .accept t a batch policy now :: calls, db, hc, h => by
    obtain ⟨hkeys, hnodup⟩ := step_keys (K := K) t a batch policy now h
    obtain ⟨hrest, hn⟩ := runIngest_keys (fun c hc' => hc c (List.mem_cons_of_mem _ hc')) hnodup
    refine ⟨?_, hn⟩
    rw [insertedBy, List.map_append, ← List.append_assoc, ← hkeys]
    exact hrest

variable {calls : List IngestCall}

/-- Nothing is inserted twice under one id. -/
theorem insertedBy_keys_nodup (hc : NoCleanup calls) :
    ((insertedBy K calls .empty).map logKey).Nodup := by
  obtain ⟨hkeys, hn⟩ := runIngest_keys hc (show (HubDB.empty.receipts.map Receipt.key).Nodup from
    List.nodup_nil)
  rw [hkeys] at hn
  exact hn

/-- An event with a receipt was inserted, under its id. -/
theorem logged_of_accepted (hc : NoCleanup calls) {e : IngestEvent}
    (h : AcceptedBefore K tenant agent [e] (runIngest K calls .empty)) :
    ∃ n, (tenant, agent, n) ∈ insertedBy K calls .empty ∧ n.eventID = e.eventID := by
  obtain ⟨body, -, hhash⟩ := h e List.mem_cons_self
  obtain ⟨r, hr, hk⟩ := selectContentHash_some hhash
  have hmem := List.mem_map_of_mem (f := Receipt.key) hr
  rw [(runIngest_keys hc (show (HubDB.empty.receipts.map Receipt.key).Nodup from
    List.nodup_nil)).1, hk] at hmem
  obtain ⟨⟨t, a, n⟩, hn, heq⟩ := List.mem_map.1 hmem
  simp only [logKey, Prod.mk.injEq] at heq
  obtain ⟨rfl, rfl, hid⟩ := heq
  exact ⟨n, hn, hid⟩

/-! ## Normal forms -/

/-- The normal form of an event is the event with its owner filled in. -/
theorem normalizeEvent_filled {e n : IngestEvent} {seen : List String}
    (h : normalizeEvent tenant agent now seen e = .ok n) : n = e.filled tenant agent := by
  obtain ⟨hid, hrow, -⟩ := normalizeEvent_ok h
  rcases e with ⟨id, boot, seq, _ | m, _ | p⟩
  · cases hrow
  · simp only [normalizeRow] at hrow
    split_ifs at hrow
    cases hrow
    rfl
  · simp only [normalizeRow] at hrow
    split_ifs at hrow
    cases hrow
    rfl
  · simp [IngestEvent.identified] at hid

theorem normalizeIngest_filled {b b' : IngestBatch} {n : IngestEvent}
    (h : normalizeIngest b tenant agent now = .ok b') (hn : n ∈ b'.events) :
    ∃ e ∈ b.events, n = e.filled tenant agent := by
  obtain ⟨e, he, seen, hnorm⟩ := normalizeEvents_mem (normalizeIngest_ok h).2.1 n hn
  exact ⟨e, he, normalizeEvent_filled hnorm⟩

theorem filled_mem_normalizeIngest {b b' : IngestBatch} {e : IngestEvent}
    (h : normalizeIngest b tenant agent now = .ok b') (he : e ∈ b.events) :
    e.filled tenant agent ∈ b'.events := by
  obtain ⟨n, hn, seen, hnorm⟩ := mem_normalizeEvents (normalizeIngest_ok h).2.1 he
  rwa [normalizeEvent_filled hnorm] at hn

/-- To normalise what is normal changes nothing. -/
theorem filled_filled (e : IngestEvent) :
    (e.filled tenant agent).filled tenant agent = e.filled tenant agent := by
  rcases e with ⟨id, boot, seq, _ | m, _ | p⟩ <;> rfl

/-! ## Requests -/

variable (W : Wire)

theorem forwarded_reaches {r : Reception} {req : IngestRequest} {p : Principal} {batch : IngestBatch} :
    r.forwarded W req = some (p, batch) ↔ r.Reaches W p req batch := by
  constructor
  · intro h
    unfold Reception.forwarded at h
    split at h
    · rename_i p' body hauth hbody
      split_ifs at h with hc
      obtain ⟨hpost, hkind, hagent, hadm, hav, hpr, hlen⟩ := hc
      split at h
      · rename_i raw hraw
        split at h
        · rename_i batch' hnorm
          cases h
          exact ⟨hauth, hpost, hkind, hagent, hadm, hav, hpr, body, raw, hbody, hlen, hraw, hnorm⟩
        · cases h
      · cases h
    · cases h
  · intro h
    obtain ⟨body, raw, hbody, hlen, hraw, hnorm⟩ := h.read
    have hc : req.post = true ∧ p.kind = kindAgent ∧ p.agentID ≠ "" ∧ r.admitted = true
        ∧ r.available = true ∧ r.pressure ≠ some true ∧ body.length ≤ maxBatchBytes :=
      ⟨h.post, h.kind, h.agent, h.admitted, h.available, h.pressure, hlen⟩
    unfold Reception.forwarded
    simp only [h.auth, hbody, if_pos hc, hraw, hnorm]

/-- A request is its transaction. -/
theorem receiveBatch_calls (r : Reception) (req : IngestRequest) (db : HubDB) :
    (receiveBatch W r req db).1 = runIngest W.toEventCodec (r.calls W req) db := by
  rcases hf : r.forwarded W req with _ | ⟨p, batch⟩
  · simp only [Reception.calls, hf]
    rcases hauth : r.auth with response | p
    · unfold receiveBatch
      rw [hauth]
      split_ifs <;> rfl
    · rcases receiveBatch_reaches W r req db hauth with ⟨batch, hr⟩ | ⟨h, -⟩
      · rw [(forwarded_reaches W).2 hr] at hf
        cases hf
      · exact h
  · rw [((forwarded_reaches W).1 hf).receive]
    simp only [Reception.calls, hf, Reception.accept]
    rcases hfault : r.fault with _ | _ | _ <;> rfl

theorem calls_noCleanup (r : Reception) (req : IngestRequest) : NoCleanup (r.calls W req) := by
  intro c hc now second
  unfold Reception.calls at hc
  split at hc
  · split_ifs at hc
    · cases hc
    · rw [List.mem_singleton.1 hc]
      simp
  · cases hc

/-- The transaction of a request is for its principal, on the batch of its body. -/
theorem mem_calls {r : Reception} {req : IngestRequest} {batch : IngestBatch} {policy : IngestPolicy}
    (h : .accept tenant agent batch policy now ∈ r.calls W req) :
    ∃ p, p.tenantID = tenant ∧ p.agentID = agent ∧ r.Reaches W p req batch := by
  unfold Reception.calls at h
  split at h
  · rename_i p batch' hf
    split_ifs at h
    · cases h
    · cases List.mem_singleton.1 h
      exact ⟨p, rfl, rfl, (forwarded_reaches W).1 hf⟩
  · cases h

/-- An acknowledged batch is recorded. -/
theorem acked_recorded {r : Reception} {req : IngestRequest} {db : HubDB} {p : Principal} {ack : Ack}
    (hauth : r.auth = .ok p) (hack : (receiveBatch W r req db).2.ack = some ack) :
    ∃ batch, r.Reaches W p req batch
      ∧ AcceptedBefore W.toEventCodec p.tenantID p.agentID batch.events
        (receiveBatch W r req db).1 := by
  rcases receiveBatch_reaches W r req db hauth with ⟨batch, hreach⟩ | ⟨-, -, -, hno⟩
  swap
  · rw [hno] at hack
    cases hack
  refine Reception.Commits.recorded W ⟨?_, ?_⟩ hauth
  · intro hf
    rw [hreach.receive, Reception.accept] at hack
    simp only [hf] at hack
    cases hack
  · have hreach' : Reception.Reaches W { r with fault := .none } p req batch :=
      ⟨hauth, hreach.post, hreach.kind, hreach.agent, hreach.admitted, hreach.available,
        hreach.pressure, hreach.read⟩
    rw [hreach.receive, Reception.accept] at hack
    rw [hreach'.receive, Reception.accept]
    rcases hfault : r.fault with _ | _ | _ <;> simp only [hfault] at hack
    · obtain ⟨outs, hres, -⟩ := Reception.answer_ack hack
      simp only [hres, Reception.answer]
    · cases hack
    · cases hack

end WMonitor
