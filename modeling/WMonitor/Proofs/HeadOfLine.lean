import WMonitor.Proofs.Accepted
import WMonitor.Proofs.Agent
import WMonitor.Proofs.SpoolAnswers

/-!
# A queue that the Hub refuses

`DrainBatches` hands its queue over in order, and an entry that the Hub refuses stays where it is: what
has left the queue is its beginning, all of it accepted, and as long as the Hub refuses the group at the
head no pass gets any further (`drainPasses_inOrder`).
-/

namespace WMonitor

variable {W : Wire} {principal : Principal} {r : Reception}

/-! ## What the Hub answers -/

/-- The request that carries a batch. -/
def batchRequest (body : List UInt8) : IngestRequest := ⟨true, false, "", some body⟩

/-- A request that is not answered with success changes nothing. -/
theorem Reception.Serves.refused (hs : r.Serves principal) {req : IngestRequest} {db : HubDB}
    (h : (receiveBatch W r req db).2.status ≠ 202) : (receiveBatch W r req db).1 = db := by
  rcases receiveBatch_reaches W r req db hs.auth with ⟨batch, hreach⟩ | ⟨hsame, -⟩
  swap
  · exact hsame
  rw [hreach.receive] at h ⊢
  unfold Reception.accept at h ⊢
  simp only [hs.fault] at h ⊢
  rcases acceptIngest_cases W.toEventCodec principal.tenantID principal.agentID batch r.policy
    r.acceptedAt db with ⟨-, hsame⟩ | ⟨batch', tx, os, -, -, -, he⟩
  · exact hsame
  · rw [he] at h
    exact absurd rfl h

/-- It is no success of another kind, and not a matter of the credential. -/
theorem Reception.Serves.status (hs : r.Serves principal) (body : List UInt8) (db : HubDB) :
    (receiveBatch W r (batchRequest body) db).2.status ≠ 200
      ∧ (receiveBatch W r (batchRequest body) db).2.status ≠ 401 := by
  have hp : ¬ (principal.kind ≠ kindAgent ∨ principal.agentID = "") := by
    simp [hs.kind, hs.agent]
  have hreceive : receiveBatch W r (batchRequest body) db
      = r.process W principal (batchRequest body) db := by
    unfold receiveBatch
    simp only [batchRequest, hs.auth, if_neg hp, hs.admitted, hs.available, if_neg hs.pressure,
      Bool.not_true, Bool.false_eq_true, if_false]
  rw [hreceive]
  unfold Reception.process
  dsimp only [batchRequest]
  split_ifs
  · simp
  split
  · simp
  split
  · simp
  unfold Reception.accept
  simp only [hs.fault]
  rcases (db.acceptIngest W.toEventCodec principal.tenantID principal.agentID _ r.policy
    r.acceptedAt).2 with (_ | _ | _ | _ | _) | outs
  all_goals simp [Reception.answer]

theorem normalizeEvents_eventIDs {tenant agent : String} {now : ℤ} :
    ∀ {es es' : List IngestEvent} {seen : List String},
      normalizeEvents tenant agent now seen es = .ok es' → es'.map (·.eventID) = es.map (·.eventID)
  | [], es', seen, h => by
    cases h
    rfl
  | e :: es, es', seen, h => by
    simp only [normalizeEvents] at h
    obtain ⟨n, hn, h⟩ := Table.ok_of_bind h
    obtain ⟨ns, hns, h⟩ := Table.ok_of_bind h
    cases h
    rw [List.map_cons, List.map_cons, normalizeEvents_eventIDs hns, normalizeEvent_filled hn]
    rfl

theorem answers_of_eventIDs {outs : List IngestOutcome} {events : List IngestEvent}
    (h : outs.map (·.eventID) = events.map (·.eventID)) :
    Ack.answers ⟨"accepted", outs.map fun o => (o.eventID, o.status.text)⟩ events = true := by
  have htext : ∀ st : OutcomeStatus, st.text = "accepted" ∨ st.text = "duplicate" := by
    intro st
    cases st <;> simp [OutcomeStatus.text]
  unfold Ack.answers
  induction outs generalizing events with
  | nil => rfl
  | cons o outs ih =>
    rcases events with _ | ⟨e, events⟩
    · rfl
    · rw [List.map_cons, List.map_cons, List.cons.injEq] at h
      rw [List.map_cons, List.zip_cons_cons, List.all_cons, ih h.2]
      simp [h.1, htext o.status]

/-- A batch that is answered with success: it was read as it was sent, and all of it was accepted. -/
structure TakenAs (W : Wire) (principal : Principal) (r : Reception) (group : List SpoolEntry)
    (body : List UInt8) (db : HubDB) (events : List IngestEvent) (batch : IngestBatch) (db' : HubDB)
    (outs : List IngestOutcome) : Prop where
  spooled : W.spooledEvents group = .ok events
  sent : W.unmarshalBatch body = .ok ⟨ingestSchema, events⟩
  normal : normalizeIngest ⟨ingestSchema, events⟩ principal.tenantID principal.agentID r.receivedAt
    = .ok batch
  accepted : acceptEvents W.toEventCodec principal.tenantID principal.agentID r.policy r.acceptedAt
    batch.events db = .ok (db', outs)
  answer : receiveBatch W r (batchRequest body) db = (db', r.answer (.ok outs))

theorem Reception.Serves.takenAs (hs : r.Serves principal) (hW : W.RoundTrips)
    {group : List SpoolEntry} {body : List UInt8} (hbody : W.batchBody group = .ok body) {db : HubDB}
    (h : (receiveBatch W r (batchRequest body) db).2.status = 202) :
    ∃ events batch db' outs, TakenAs W principal r group body db events batch db' outs := by
  obtain ⟨events, hevents, henc, hlen⟩ := batchBody_ok hbody
  obtain ⟨hparse, hunmarshal⟩ := hW _ _ henc hlen
  rcases receiveBatch_reaches W r (batchRequest body) db hs.auth with ⟨batch, hreach⟩ | ⟨-, hno, -⟩
  swap
  · exact absurd h hno
  obtain ⟨body', raw, hbody', -, hread, hnorm⟩ := hreach.read
  cases hbody'
  have hraw : raw = ⟨ingestSchema, events⟩ := by
    simp only [Wire.readBatch, batchRequest, Bool.false_eq_true, if_false, hparse] at hread
    exact (Except.ok.inj hread).symm
  subst hraw
  have hanswer := hreach.receive W db
  unfold Reception.accept at hanswer
  simp only [hs.fault] at hanswer
  rcases acceptIngest_cases W.toEventCodec principal.tenantID principal.agentID batch r.policy
    r.acceptedAt db with ⟨⟨err, he⟩, -⟩ | ⟨batch', db', outs, hn, -, ha, he⟩
  · rw [hanswer, he] at h
    obtain ⟨outs, houts⟩ := Reception.answer_status h
    cases houts
  · rw [normalizeIngest_normal hnorm hn] at ha
    rw [he] at hanswer
    exact ⟨events, batch, db', outs, hevents, hunmarshal, hnorm, ha, hanswer⟩

variable {group : List SpoolEntry} {body : List UInt8} {db db' : HubDB} {events : List IngestEvent}
  {batch : IngestBatch} {outs : List IngestOutcome}

theorem TakenAs.eventIDs (h : TakenAs W principal r group body db events batch db' outs) :
    batch.events.map (·.eventID) = events.map (·.eventID) :=
  normalizeEvents_eventIDs (normalizeIngest_ok h.normal).2.1

/-- What the Hub acknowledges passes the agent's check. -/
theorem TakenAs.checkAck (h : TakenAs W principal r group body db events batch db' outs) :
    W.checkAck body (receiveBatch W r (batchRequest body) db).2.ack = .ok () := by
  have hids : outs.map (·.eventID) = events.map (·.eventID) := by
    rw [acceptEvents_eventIDs W.toEventCodec h.accepted, h.eventIDs]
  have hlength : outs.length = events.length := by simpa using congrArg List.length hids
  rw [h.answer]
  unfold Wire.checkAck Reception.answer
  simp [h.sent, hlength, answers_of_eventIDs hids]

/-! ## Passes -/

/-- Whether a group is accepted, and the Hub afterwards. -/
def Wire.answers (W : Wire) (hub : ℕ → Reception) (group : List SpoolEntry) (h : DirectHub) :
    Bool × DirectHub :=
  match W.batchBody group with
  | .error _ => (false, h)
  | .ok body =>
    (decide ((receiveBatch W (hub h.requests) (batchRequest body) h.db).2.status = 202),
      ⟨(receiveBatch W (hub h.requests) (batchRequest body) h.db).1, h.requests + 1⟩)

open Spool Prog

section Deliver

variable {η θ : Type} {transport : String → List UInt8 → SpoolM η θ Reply} {body : List UInt8}
  {c : Choice θ} {s s₁ : Spool η} {status : ℕ} {ack : Option Ack} {delay : ℤ}

theorem deliver_accepted (reauth : Option (SpoolM η θ Unit))
    (h : (transport "batch" body).alone c s = some (.ok (.response status ack delay), s₁))
    (hstatus : status = 202) (hack : W.checkAck body ack = .ok ()) :
    (W.deliver transport reauth "batch" body).alone c s = some (.ok (), s₁) := by
  unfold Wire.deliver Wire.deliverLoop
  rw [alone_bind, h, Option.bind_some]
  simp [hstatus, hack]

theorem deliver_refused (reauth : Option (SpoolM η θ Unit))
    (h : (transport "batch" body).alone c s = some (.ok (.response status ack delay), s₁))
    (h₂₀₂ : status ≠ 202) (h₂₀₀ : status ≠ 200) (h₄₀₁ : status ≠ 401) :
    ∃ e, (W.deliver transport reauth "batch" body).alone c s = some (.error e, s₁) := by
  unfold Wire.deliver Wire.deliverLoop
  rw [alone_bind, h, Option.bind_some]
  dsimp only
  rw [if_neg (by simp [h₂₀₂, h₂₀₀]), if_neg h₄₀₁]
  split_ifs
  · exact ⟨_, rfl⟩
  · exact ⟨_, rfl⟩
  · exact ⟨_, rfl⟩

end Deliver

theorem direct_alone (W : Wire) (hub : ℕ → Reception) (payloadType : String) (body : List UInt8)
    (s : Spool DirectHub) :
    ∃ delay, (W.direct payloadType body).alone { env := hub } s = some
      (.ok (.response (receiveBatch W (hub s.env.requests) (batchRequest body) s.env.db).2.status
        (receiveBatch W (hub s.env.requests) (batchRequest body) s.env.db).2.ack delay),
      { s with env := ⟨(receiveBatch W (hub s.env.requests) (batchRequest body) s.env.db).1,
        s.env.requests + 1⟩ }) :=
  ⟨_, rfl⟩

theorem deliver_answering (hW : W.RoundTrips)
    (reauth : Option (SpoolM DirectHub (ℕ → Reception) Unit)) (maximum : ℕ) {hub : ℕ → Reception}
    (hs : ∀ i, (hub i).Serves principal) :
    Answering ⟨pure (), groupSize maximum 0 1024, W.deliverBatch W.direct reauth, .corruptEvidence⟩
      { env := hub } (W.answers hub) := by
  refine ⟨rfl, fun _ => rfl, fun group s => ?_⟩
  unfold Wire.deliverBatch
  rw [alone_bind, alone_ofExcept, Option.bind_some, Wire.answers]
  rcases hbody : W.batchBody group with e | body
  · exact ⟨_, rfl, rfl⟩
  obtain ⟨delay, hdirect⟩ := direct_alone W hub "batch" body s
  dsimp only
  by_cases h₂₀₂ : (receiveBatch W (hub s.env.requests) (batchRequest body) s.env.db).2.status = 202
  · obtain ⟨events, batch, db', outs, htaken⟩ := (hs s.env.requests).takenAs hW hbody h₂₀₂
    exact ⟨.ok (), deliver_accepted reauth hdirect h₂₀₂ htaken.checkAck, (decide_eq_true h₂₀₂).symm⟩
  · obtain ⟨h₂₀₀, h₄₀₁⟩ := (hs s.env.requests).status body s.env.db
    obtain ⟨e, he⟩ := deliver_refused reauth hdirect h₂₀₂ h₂₀₀ h₄₀₁
    exact ⟨.error e, he, (decide_eq_false h₂₀₂).symm⟩

/-! ## What the Hub has of a queue -/

/-- The Hub has the receipt of the entry's event. -/
def Wire.Receipted (W : Wire) (principal : Principal) (db : HubDB) (e : SpoolEntry) : Prop :=
  ∃ ev, W.spooledEvent e.payloadType e.raw = .ok ev
    ∧ AcceptedBefore W.toEventCodec principal.tenantID principal.agentID
      [ev.filled principal.tenantID principal.agentID] db

/-- The receipts that are new are those of entries of the list. -/
def Wire.NewFrom (W : Wire) (principal : Principal) (done : List SpoolEntry) (db db' : HubDB) : Prop :=
  ∀ receipt ∈ db'.receipts, receipt ∈ db.receipts ∨ ∃ e ∈ done, ∃ ev,
    W.spooledEvent e.payloadType e.raw = .ok ev
      ∧ receipt.key = (principal.tenantID, principal.agentID, ev.eventID)

theorem TakenAs.receipted (h : TakenAs W principal r group body db events batch db' outs) :
    ∀ e ∈ group, W.Receipted principal db' e := by
  intro e he
  obtain ⟨ev, hev, hspooled⟩ := (Agent.spooledEvents_entries h.spooled).1 e he
  refine ⟨ev, hspooled, fun n hn => ?_⟩
  rw [List.mem_singleton.1 hn]
  exact (acceptEvents_recorded h.accepted).1 _ (filled_mem_normalizeIngest h.normal hev)

theorem TakenAs.newFrom (h : TakenAs W principal r group body db events batch db' outs) :
    W.NewFrom principal group db db' := by
  obtain ⟨rs, hrs, hkeys⟩ := (acceptEvents_adds W.toEventCodec h.accepted).receipts
  intro receipt hmem
  rw [hrs] at hmem
  refine (List.mem_append.1 hmem).imp id fun hnew => ?_
  have hkey := List.mem_map_of_mem (f := Receipt.key) hnew
  rw [hkeys] at hkey
  obtain ⟨n, hn, hkey⟩ := List.mem_map.1 hkey
  have hid : n.eventID ∈ events.map (·.eventID) := by
    rw [← h.eventIDs]
    exact List.mem_map_of_mem (acceptedEvents_sub hn)
  obtain ⟨ev, hev, hid⟩ := List.mem_map.1 hid
  obtain ⟨e, he, hspooled⟩ := (Agent.spooledEvents_entries h.spooled).2 ev hev
  exact ⟨e, he, ev, hspooled, by rw [← hkey, hid]⟩

theorem Wire.Receipted.mono {e : SpoolEntry} (h : W.Receipted principal db e) {rs : List Receipt}
    (hr : db'.receipts = db.receipts ++ rs) : W.Receipted principal db' e := by
  obtain ⟨ev, hspooled, haccepted⟩ := h
  exact ⟨ev, hspooled, haccepted.mono hr⟩

/-- The entries that were handed over are accepted, and no others. -/
def Wire.HandedOver (W : Wire) (principal : Principal) (db₀ : HubDB) (done : List SpoolEntry)
    (h : DirectHub) : Prop :=
  (∀ e ∈ done, W.Receipted principal h.db e) ∧ W.NewFrom principal done db₀ h.db

theorem answers_refused {hub : ℕ → Reception} (hs : ∀ i, (hub i).Serves principal)
    (group : List SpoolEntry) (h : DirectHub) (hno : (W.answers hub group h).1 = false) :
    (W.answers hub group h).2.db = h.db := by
  unfold Wire.answers at hno ⊢
  rcases hbody : W.batchBody group with e | body
  · rfl
  · rw [hbody] at hno
    exact (hs h.requests).refused (of_decide_eq_false hno)

theorem answers_keeps (hW : W.RoundTrips) {hub : ℕ → Reception} (hs : ∀ i, (hub i).Serves principal)
    (db₀ : HubDB) : InOrder.Keeps (W.HandedOver principal db₀) (W.answers hub) where
  taken := by
    rintro done group h ⟨hreceipted, hnew⟩ hyes
    unfold Wire.answers at hyes ⊢
    rcases hbody : W.batchBody group with e | body
    · rw [hbody] at hyes
      cases hyes
    rw [hbody] at hyes
    dsimp only
    obtain ⟨events, batch, db', outs, htaken⟩ :=
      (hs h.requests).takenAs hW hbody (of_decide_eq_true hyes)
    obtain ⟨rs, hrs⟩ := receiveBatch_receipts W (hub h.requests) (batchRequest body) h.db
    rw [htaken.answer] at hrs ⊢
    constructor
    · intro e he
      rcases List.mem_append.1 he with he | he
      · exact (hreceipted e he).mono hrs
      · exact htaken.receipted e he
    · intro receipt hmem
      rcases htaken.newFrom receipt hmem with hold | ⟨e, he, hkey⟩
      · refine (hnew receipt hold).imp id fun ⟨e, he, hkey⟩ => ⟨e, List.mem_append_left _ he, hkey⟩
      · exact .inr ⟨e, List.mem_append_right _ he, hkey⟩
  refused := by
    rintro done group h hgood hno
    unfold Wire.HandedOver at hgood ⊢
    rwa [answers_refused hs group h hno]

/-! ## The queue -/

/-- What is left of the queue, in order. -/
def Spool.backlog {η : Type} (s : Spool η) : List SpoolEntry := InOrder.rest s.lined

/-- The head of the queue is not accepted if the Hub is found like this: its checkpoint is not valid, or
the next group does not fit into a batch, cannot be made one, or is not answered with 202. -/
def Wire.HeldUp (W : Wire) (maximum : ℕ) (r : Reception) (s : Spool DirectHub) : Prop :=
  InOrder.Blocked (groupSize maximum 0 1024) (W.answers fun _ => r) s.lined s.env

variable (reauth : Option (SpoolM DirectHub (ℕ → Reception) Unit)) {maximum : ℕ}

theorem drainPass_answers (hW : W.RoundTrips) (hm : 1 ≤ maximum) (hmax : maximum ≤ maxBatchEvents)
    {hub : ℕ → Reception} (hs : ∀ i, (hub i).Serves principal) {s : Spool DirectHub} (hidle : Idle s) :
    Idle (W.drainPass reauth maximum s hub)
      ∧ ((W.drainPass reauth maximum s hub).lined, (W.drainPass reauth maximum s hub).env)
        = InOrder.pass (groupSize maximum 0 1024) (W.answers hub) s.lined s.env := by
  obtain ⟨r, s', hrun, hidle', hpass⟩ :=
    drainBatches_answers 0 hm hmax (deliver_answering hW reauth maximum hs) hidle
  have hafter : W.drainPass reauth maximum s hub = s' := by
    rw [Wire.drainPass, hrun]
    rfl
  rw [hafter]
  exact ⟨hidle', hpass⟩

theorem drainPasses_answers (hW : W.RoundTrips) (hm : 1 ≤ maximum) (hmax : maximum ≤ maxBatchEvents)
    {hubs : List (ℕ → Reception)} (hs : ∀ hub ∈ hubs, ∀ i, (hub i).Serves principal)
    {s : Spool DirectHub} (hidle : Idle s) :
    ((W.drainPasses reauth maximum hubs s).lined, (W.drainPasses reauth maximum hubs s).env)
      = InOrder.passes (groupSize maximum 0 1024) (s.lined, s.env) (hubs.map W.answers) := by
  induction hubs generalizing s with
  | nil => rfl
  | cons hub hubs ih =>
    rw [List.forall_mem_cons] at hs
    obtain ⟨hidle', hpass⟩ := drainPass_answers reauth hW hm hmax hs.1 hidle
    refine (ih hs.2 hidle').trans ?_
    rw [hpass]
    rfl

/-- An answer depends on the tables and on how the request finds the Hub. -/
theorem answers_congr {hub hub' : ℕ → Reception} {h h' : DirectHub} (hdb : h.db = h'.db)
    (hhub : hub h.requests = hub' h'.requests) (group : List SpoolEntry) :
    (W.answers hub group h).1 = (W.answers hub' group h').1 := by
  unfold Wire.answers
  rw [hdb, hhub]
  rcases W.batchBody group with e | body
  · rfl
  · rfl

theorem blocked_congr {hub hub' : ℕ → Reception} {h h' : DirectHub} (hdb : h.db = h'.db)
    (hhub : hub h.requests = hub' h'.requests) {q : List (InOrder.Segment SpoolEntry)}
    (hb : InOrder.Blocked (groupSize maximum 0 1024) (W.answers hub) q h) :
    InOrder.Blocked (groupSize maximum 0 1024) (W.answers hub') q h' := by
  obtain ⟨seg, q', hq, hseg⟩ := hb
  refine ⟨seg, q', hq, hseg.imp id ?_⟩
  rintro ⟨xs, hxs, hne, hrefused⟩
  refine ⟨xs, hxs, hne, hrefused.imp id fun hno => ?_⟩
  rwa [← answers_congr hdb hhub]

section InOrder

variable (hW : W.RoundTrips) (hm : 1 ≤ maximum) (hmax : maximum ≤ maxBatchEvents)
  {s : Spool DirectHub} (hidle : Idle s)

include hW hm hmax hidle

/-- What has left the queue is accepted, and nothing else is. -/
theorem drainPasses_handOver {hubs : List (ℕ → Reception)}
    (hs : ∀ hub ∈ hubs, ∀ i, (hub i).Serves principal) :
    ∃ done, s.backlog = done ++ (W.drainPasses reauth maximum hubs s).backlog
      ∧ W.HandedOver principal s.env.db done (W.drainPasses reauth maximum hubs s).env := by
  have hpasses := drainPasses_answers reauth hW hm hmax hs hidle
  have hkeeps : ∀ answer ∈ hubs.map W.answers,
      InOrder.Keeps (W.HandedOver principal s.env.db) answer := by
    rw [List.forall_mem_map]
    exact fun hub hhub => answers_keeps hW (hs hub hhub) s.env.db
  have hstart : W.HandedOver principal s.env.db [] s.env := ⟨by simp, fun _ h => .inl h⟩
  have hpassed := InOrder.passes_inv (groupSize maximum 0 1024) hkeeps s.lined hstart
  rwa [← hpasses] at hpassed

theorem drainPass_ends {hub : ℕ → Reception} (hs : ∀ i, (hub i).Serves principal) :
    (W.drainPass reauth maximum s hub).lined = []
      ∨ InOrder.corrupts (W.drainPass reauth maximum s hub).lined < InOrder.corrupts s.lined
      ∨ (InOrder.corrupts (W.drainPass reauth maximum s hub).lined ≤ InOrder.corrupts s.lined
        ∧ ∃ i, W.HeldUp maximum (hub i) (W.drainPass reauth maximum s hub)) := by
  obtain ⟨-, hpass⟩ := drainPass_answers reauth hW hm hmax hs hidle
  have hends := InOrder.pass_ends (groupSize maximum 0 1024) (answers_refused (W := W) hs) s.lined s.env
  have hle := InOrder.corrupts_pass_le (groupSize maximum 0 1024) (W.answers hub) s.lined s.env
  rw [← hpass] at hends hle
  refine hends.imp id (Or.imp id ?_)
  rintro ⟨h, hdb, hblocked⟩
  exact ⟨hle, h.requests, blocked_congr hdb rfl hblocked⟩

theorem drainPasses_heldUp {hubs : List (ℕ → Reception)}
    (hs : ∀ hub ∈ hubs, ∀ i, (hub i).Serves principal ∧ W.HeldUp maximum (hub i) s) :
    (W.drainPasses reauth maximum hubs s).lined = s.lined
      ∧ (W.drainPasses reauth maximum hubs s).env.db = s.env.db := by
  have hpasses := drainPasses_answers reauth hW hm hmax (fun hub hhub i => (hs hub hhub i).1) hidle
  have hkeep : ∀ answer ∈ hubs.map W.answers, InOrder.Retains DirectHub.db answer := by
    rw [List.forall_mem_map]
    exact fun hub hhub => answers_refused fun i => (hs hub hhub i).1
  have hheld : ∀ answer ∈ hubs.map W.answers, ∀ h : DirectHub, h.db = s.env.db →
      InOrder.Blocked (groupSize maximum 0 1024) answer s.lined h := by
    rw [List.forall_mem_map]
    exact fun hub hhub h hdb => blocked_congr hdb.symm rfl (hs hub hhub h.requests).2
  have hblocked := InOrder.passes_blocked (groupSize maximum 0 1024) hkeep hheld
  rwa [← hpasses] at hblocked

end InOrder

/-- The passes of `DrainBatches` hand the queue over in order. What has left it is accepted, and nothing
else is. A pass ends with the queue empty, or with one segment less that cannot be read, or at a head
that is held up; and as long as the head is held up the queue and the Hub's tables stay as they are. -/
theorem drainPasses_inOrder (W : Wire) (hW : W.RoundTrips) (principal : Principal)
    (reauth : Option (SpoolM DirectHub (ℕ → Reception) Unit)) (maximum : ℕ) (hm : 1 ≤ maximum)
    (hmax : maximum ≤ maxBatchEvents) (s : Spool DirectHub) (hidle : Idle s) :
    (∀ hubs : List (ℕ → Reception), (∀ hub ∈ hubs, ∀ i, (hub i).Serves principal) →
      ∃ done, s.backlog = done ++ (W.drainPasses reauth maximum hubs s).backlog
        ∧ (∀ e ∈ done, W.Receipted principal (W.drainPasses reauth maximum hubs s).env.db e)
        ∧ W.NewFrom principal done s.env.db (W.drainPasses reauth maximum hubs s).env.db)
    ∧ (∀ hub : ℕ → Reception, (∀ i, (hub i).Serves principal) →
      (W.drainPass reauth maximum s hub).lined = []
        ∨ InOrder.corrupts (W.drainPass reauth maximum s hub).lined < InOrder.corrupts s.lined
        ∨ (InOrder.corrupts (W.drainPass reauth maximum s hub).lined ≤ InOrder.corrupts s.lined
          ∧ ∃ i, W.HeldUp maximum (hub i) (W.drainPass reauth maximum s hub)))
    ∧ ∀ hubs : List (ℕ → Reception),
      (∀ hub ∈ hubs, ∀ i, (hub i).Serves principal ∧ W.HeldUp maximum (hub i) s) →
      (W.drainPasses reauth maximum hubs s).lined = s.lined
        ∧ (W.drainPasses reauth maximum hubs s).env.db = s.env.db :=
  ⟨fun _ hs => drainPasses_handOver reauth hW hm hmax hidle hs,
    fun _ hs => drainPass_ends reauth hW hm hmax hidle hs,
    fun _ hs => drainPasses_heldUp reauth hW hm hmax hidle hs⟩

/-! ## A stale event before a fresh one -/

/-- An event of 31 days before. -/
def staleEvent : IngestEvent :=
  { sampleEvent with
    eventID := "event-0"
    bootID := "boot-0"
    metric := some { sampleMetric with timestamp := sampleMetric.timestamp - 31 * 24 * hour } }

/-- The stale event and the sample, and the batches of both and of the sample, with short texts. -/
def pairWire : Wire where
  marshal e :=
    if e = sampleEvent.filled "tenant-a" "agent-a" then .ok [50] else .error "not in the sample"
  sha256 _ := []
  parseMetric _ := .error "not in the sample"
  parseProcess _ := .error "not in the sample"
  parseEvent body :=
    if body = [49] then .ok staleEvent
    else if body = [50] then .ok sampleEvent
    else .error "not in the sample"
  parseBatch body :=
    if body = [51] then .ok ⟨ingestSchema, [staleEvent, sampleEvent]⟩
    else if body = [52] then .ok ⟨ingestSchema, [sampleEvent]⟩
    else .error "not in the sample"
  unmarshalBatch body :=
    if body = [51] then .ok ⟨ingestSchema, [staleEvent, sampleEvent]⟩
    else if body = [52] then .ok ⟨ingestSchema, [sampleEvent]⟩
    else .error "not in the sample"
  encodeBatch batch :=
    if batch = ⟨ingestSchema, [staleEvent, sampleEvent]⟩ then .ok [51]
    else if batch = ⟨ingestSchema, [sampleEvent]⟩ then .ok [52]
    else .error "not in the sample"

theorem pairWire_roundTrips : pairWire.RoundTrips := by
  intro batch body h hlen
  simp only [pairWire] at h
  split_ifs at h with hpair hone
  · cases h
    subst hpair
    exact ⟨rfl, rfl⟩
  · cases h
    subst hone
    exact ⟨rfl, rfl⟩

def staleEntry : SpoolEntry := ⟨"event", .num (Json.int 1), 0⟩

def freshEntry : SpoolEntry := ⟨"event", .num (Json.int 2), 0⟩

/-- A queue with the two in one segment, and a new Hub. -/
def pairQueue : Spool DirectHub where
  queue :=
    { names := [⟨0, 0⟩]
      segs := Function.update (fun _ => none) ⟨0, 0⟩ (some (segmentOf [staleEntry, freshEntry])) }
  env := ⟨.empty, 0⟩

theorem pairQueue_idle : Idle pairQueue := ⟨rfl, rfl, rfl, List.nodup_singleton _⟩

theorem pairQueue_lined : pairQueue.lined = [.ready [staleEntry, freshEntry]] := by
  have hsegments : pairQueue.segments = [⟨0, 0⟩] := by
    rw [segments, show pairQueue.queue.names = [⟨0, 0⟩] from rfl,
      List.filter_cons_of_pos (by simp [pairQueue])]
    exact List.mergeSort_singleton _
  have hdecoded : decodeSegment (segmentOf [staleEntry, freshEntry])
      = some [staleEntry, freshEntry] := by
    refine (decodeSegment_iff ?_ ?_ (by decide +kernel)).2 (by decide +kernel)
    · simp [staleEntry, freshEntry, SpoolEntry.Clocked]
    · decide +kernel
  have hfound : pairQueue.foundAt ⟨0, 0⟩ = some (.ready [staleEntry, freshEntry]) := by
    rw [foundAt, show pairQueue.queue.segs ⟨0, 0⟩ = some (segmentOf [staleEntry, freshEntry]) by
      simp [pairQueue], Option.map_some, found, hdecoded]
    rfl
  rw [lined, hsegments, List.filterMap_cons_some hfound]
  rfl

theorem pairReception_serves (now : ℤ) : (sampleReception now).Serves samplePrincipal :=
  ⟨rfl, rfl, by decide, rfl, rfl, by simp [sampleReception], rfl, rfl⟩

/-- The Hub refuses the two, then and later. -/
theorem pair_refused {now : ℤ} (hnow : sampleMetric.timestamp ≤ now) :
    pairWire.HeldUp maxBatchEvents (sampleReception now) pairQueue := by
  have hsize : groupSize maxBatchEvents 0 1024 [staleEntry, freshEntry] = 2 := by decide +kernel
  have hbody : pairWire.batchBody [staleEntry, freshEntry] = .ok [51] := by decide +kernel
  refine ⟨_, _, pairQueue_lined, .inr ⟨_, rfl, by simp, .inr ?_⟩⟩
  rw [hsize, List.take_of_length_le (by simp), Wire.answers, hbody]
  refine decide_eq_false fun h => ?_
  obtain ⟨events, batch, db', outs, htaken⟩ :=
    (pairReception_serves now).takenAs pairWire_roundTrips hbody h
  have hevents : events = [staleEvent, sampleEvent] := by
    have hspooled : pairWire.spooledEvents [staleEntry, freshEntry] = .ok [staleEvent, sampleEvent] := by
      decide +kernel
    exact Except.ok.inj (htaken.spooled.symm.trans hspooled)
  have hmem : staleEvent ∈ events := by simp [hevents]
  have hwindow := (normalizeIngest_ok htaken.normal).2.2 _
    (filled_mem_normalizeIngest htaken.normal hmem)
  have hstale : (staleEvent.filled samplePrincipal.tenantID samplePrincipal.agentID).timestamp
      = sampleMetric.timestamp - 31 * 24 * hour := rfl
  have hreceived : (sampleReception now).receivedAt = now := rfl
  have hold : sampleMetric.timestamp - 31 * 24 * hour < now - maxEventAge := by
    simp only [maxEventAge, hour, minute, second] at hnow ⊢
    omega
  rw [hstale, hreceived, inWindow, decide_eq_true hold, Bool.or_true] at hwindow
  cases hwindow

/-- The fresh event is one that the Hub takes by itself, but it stands behind the stale one and is not
accepted in any number of passes. -/
theorem stale_withholds_fresh :
    (∃ body, pairWire.batchBody [freshEntry] = .ok body
      ∧ (receiveBatch pairWire (sampleReception sampleMetric.timestamp) (batchRequest body)
        .empty).2.status = 202)
    ∧ freshEntry ∈ pairQueue.backlog
    ∧ ∀ hubs : List (ℕ → Reception),
      (∀ hub ∈ hubs, ∀ i, ∃ now, sampleMetric.timestamp ≤ now ∧ hub i = sampleReception now) →
      ¬ pairWire.Receipted samplePrincipal
        (pairWire.drainPasses none maxBatchEvents hubs pairQueue).env.db freshEntry := by
  refine ⟨⟨[52], by decide +kernel, by decide +kernel⟩, ?_, fun hubs hhubs => ?_⟩
  · rw [Spool.backlog, pairQueue_lined]
    simp [InOrder.rest, InOrder.Segment.rest]
  · have hheld : ∀ hub ∈ hubs, ∀ i, (hub i).Serves samplePrincipal
        ∧ pairWire.HeldUp maxBatchEvents (hub i) pairQueue := by
      intro hub hhub i
      obtain ⟨now, hnow, hi⟩ := hhubs hub hhub i
      rw [hi]
      exact ⟨pairReception_serves now, pair_refused hnow⟩
    obtain ⟨-, hdb⟩ := drainPasses_heldUp none pairWire_roundTrips (by decide) le_rfl pairQueue_idle
      hheld
    rw [hdb]
    rintro ⟨ev, -, haccepted⟩
    obtain ⟨body, -, hhash⟩ := haccepted _ List.mem_cons_self
    cases hhash

/-- One pass over the two. -/
theorem drainPasses_inOrder_pair :
    pairWire.RoundTrips ∧ Idle pairQueue
      ∧ (sampleReception sampleMetric.timestamp).Serves samplePrincipal
      ∧ ∃ done, pairQueue.backlog = done ++ (pairWire.drainPasses none maxBatchEvents
          [fun _ => sampleReception sampleMetric.timestamp] pairQueue).backlog
        ∧ ∀ e ∈ done, pairWire.Receipted samplePrincipal (pairWire.drainPasses none maxBatchEvents
          [fun _ => sampleReception sampleMetric.timestamp] pairQueue).env.db e := by
  have hserves := pairReception_serves sampleMetric.timestamp
  obtain ⟨done, hdone, hreceipted, -⟩ := (drainPasses_inOrder pairWire pairWire_roundTrips
    samplePrincipal none maxBatchEvents (by decide) le_rfl pairQueue pairQueue_idle).1
      [fun _ => sampleReception sampleMetric.timestamp] (by simpa using hserves)
  exact ⟨pairWire_roundTrips, pairQueue_idle, hserves, done, hdone, hreceipted⟩

end WMonitor
