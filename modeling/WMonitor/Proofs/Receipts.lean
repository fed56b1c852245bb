import WMonitor.Proofs.Ingest

/-!
# What the receipts remember

Once a batch is accepted, the receipt of each of its events holds the hash of its content, and
`acceptIngest` only ever adds receipts. So as long as nothing is cleaned up the Hub answers a replay
with `duplicate` and changes nothing, alone or inside of any other batch.
-/

namespace WMonitor

variable (K : EventCodec)

/-- The events, as normalised, have been accepted before: their receipts carry their content. -/
def AcceptedBefore (tenant agent : String) (events : List IngestEvent) (db : HubDB) : Prop :=
  ∀ e ∈ events, ∃ body, K.marshal e = .ok body
    ∧ db.selectContentHash tenant agent e.eventID = some (K.contentHash body)

/-- The Hub answers `duplicate` to every event of the batch and changes nothing. -/
def Known (tenant agent : String) (batch : IngestBatch) (policy : IngestPolicy) (now : ℤ)
    (db : HubDB) : Prop :=
  ∃ outs, db.acceptIngest K tenant agent batch policy now = (db, .ok outs)
    ∧ ∀ o ∈ outs, o.status = .duplicate

variable {K} {tenant agent : String} {policy : IngestPolicy} {now : ℤ} {db : HubDB}
  {batch batch' : IngestBatch}

theorem selectContentHash_some {eventID text : String}
    (h : db.selectContentHash tenant agent eventID = some text) :
    ∃ r ∈ db.receipts, r.key = (tenant, agent, eventID) := by
  unfold HubDB.selectContentHash at h
  obtain ⟨r, hr, -⟩ := Option.map_eq_some_iff.1 h
  exact ⟨r, Table.lookup_mem hr⟩

theorem acceptEvent_known (policy : IngestPolicy) (now : ℤ) {e : IngestEvent}
    (h : AcceptedBefore K tenant agent [e] db) :
    acceptEvent K tenant agent policy now e db = .ok (db, ⟨e.eventID, .duplicate⟩) := by
  obtain ⟨body, hbody, hhash⟩ := h e List.mem_cons_self
  obtain ⟨r, hr, hkey⟩ := selectContentHash_some hhash
  have hclash : (receiptOf K tenant agent now e body).clash r = true := by
    unfold Receipt.clash
    rw [hkey]
    simp [Receipt.key, receiptOf]
  have hnone : db.insertReceipt (receiptOf K tenant agent now e body) = none := by
    unfold HubDB.insertReceipt Table.insert
    rw [if_pos (List.any_eq_true.2 ⟨r, hr, hclash⟩)]
    rfl
  simp only [acceptEvent, hbody, hnone, hhash, if_true]

theorem acceptEvents_known {events : List IngestEvent}
    (h : AcceptedBefore K tenant agent events db) :
    acceptEvents K tenant agent policy now events db
      = .ok (db, events.map fun e => ⟨e.eventID, .duplicate⟩) := by
  induction events with
  | nil => rfl
  | cons e events ih =>
    have he : AcceptedBefore K tenant agent [e] db := by
      intro e' he'
      rw [List.mem_singleton.1 he']
      exact h e List.mem_cons_self
    have ih := ih fun e' he' => h e' (List.mem_cons_of_mem e he')
    simp only [acceptEvents, acceptEvent_known policy now he, ih, List.map_cons]

theorem known_of_accepted (hn : normalizeIngest batch tenant agent now = .ok batch')
    (hv : policy.validate = .ok ()) (h : AcceptedBefore K tenant agent batch'.events db) :
    Known K tenant agent batch policy now db := by
  refine ⟨batch'.events.map fun e => ⟨e.eventID, .duplicate⟩, ?_, ?_⟩
  · simp only [HubDB.acceptIngest, hn, hv, acceptIngest, Table.transact, acceptEvents_known h]
  · intro o ho
    obtain ⟨e, -, rfl⟩ := List.mem_map.1 ho
    rfl

/-! ## Receipts are only added -/

theorem Table.lookup_append_some {α κ : Type*} [DecidableEq κ] {key : α → κ} {k : κ}
    {t u : List α} {r : α} (h : Table.lookup key k t = some r) : Table.lookup key k (t ++ u) = some r := by
  unfold Table.lookup at *
  rw [List.find?_append, h]
  rfl

theorem AcceptedBefore.mono {events : List IngestEvent} {db' : HubDB} {rs : List Receipt}
    (h : AcceptedBefore K tenant agent events db) (hr : db'.receipts = db.receipts ++ rs) :
    AcceptedBefore K tenant agent events db' := by
  intro e he
  obtain ⟨body, hbody, hhash⟩ := h e he
  refine ⟨body, hbody, ?_⟩
  unfold HubDB.selectContentHash at *
  obtain ⟨r, hl, hc⟩ := Option.map_eq_some_iff.1 hhash
  rw [hr, Table.lookup_append_some hl]
  exact congrArg some hc

theorem acceptEvent_recorded {e : IngestEvent} {db' : HubDB} {o : IngestOutcome}
    (h : acceptEvent K tenant agent policy now e db = .ok (db', o)) :
    AcceptedBefore K tenant agent [e] db' ∧ ∃ rs, db'.receipts = db.receipts ++ rs := by
  obtain ⟨body, hbody, ⟨-, rfl, hhash⟩ | ⟨-, hacc⟩⟩ := acceptEvent_cases K h
  · refine ⟨fun e' he' => ?_, [], by simp⟩
    rw [List.mem_singleton.1 he']
    exact ⟨body, hbody, hhash⟩
  · refine ⟨fun e' he' => ?_, _, hacc.receipts⟩
    rw [List.mem_singleton.1 he']
    refine ⟨body, hbody, ?_⟩
    have hnone : Table.lookup Receipt.key (tenant, agent, e.eventID) db.receipts = none := by
      refine Table.lookup_eq_none.2 fun r hr hk => ?_
      have hfresh := hacc.fresh r hr
      unfold Receipt.clash at hfresh
      rw [hk] at hfresh
      simp [Receipt.key, receiptOf] at hfresh
    unfold HubDB.selectContentHash
    rw [hacc.receipts, Table.lookup_append, hnone]
    simp [Receipt.key, receiptOf]

theorem acceptEvents_recorded : ∀ {events : List IngestEvent} {db db' : HubDB}
    {os : List IngestOutcome}, acceptEvents K tenant agent policy now events db = .ok (db', os) →
    AcceptedBefore K tenant agent events db' ∧ ∃ rs, db'.receipts = db.receipts ++ rs
  | [], db, db', os, h => by
    cases h
    exact ⟨by simp [AcceptedBefore], [], by simp⟩
  | e :: events, db, db', os, h => by
    obtain ⟨tx, o, os', h₁, h₂, rfl⟩ := acceptEvents_cons K h
    obtain ⟨he, rs, hrs⟩ := acceptEvent_recorded h₁
    obtain ⟨hes, rs', hrs'⟩ := acceptEvents_recorded h₂
    refine ⟨?_, rs ++ rs', by rw [hrs', hrs, List.append_assoc]⟩
    intro e' he'
    rcases List.mem_cons.1 he' with rfl | he'
    · exact he.mono hrs' e' (List.mem_singleton_self e')
    · exact hes e' he'

theorem acceptIngest_receipts (tenant agent : String) (batch : IngestBatch) (policy : IngestPolicy)
    (now : ℤ) (db : HubDB) :
    ∃ rs, (db.acceptIngest K tenant agent batch policy now).1.receipts = db.receipts ++ rs := by
  rcases acceptIngest_cases K tenant agent batch policy now db with
    ⟨-, hdb⟩ | ⟨batch', tx, os, -, -, ha, he⟩
  · exact ⟨[], by rw [hdb, List.append_nil]⟩
  · rw [he]
    exact (acceptEvents_recorded ha).2

/-! ## Inside of another batch -/

/-- What was accepted before leaves a batch's tables and its error as they are without it. -/
theorem acceptEvents_skip (policy : IngestPolicy) (now : ℤ) {e : IngestEvent}
    (after : List IngestEvent) :
    ∀ (before : List IngestEvent) {db : HubDB}, AcceptedBefore K tenant agent [e] db →
      (acceptEvents K tenant agent policy now (before ++ e :: after) db).map Prod.fst
        = (acceptEvents K tenant agent policy now (before ++ after) db).map Prod.fst
  | [], db, h => by
    simp only [List.nil_append, acceptEvents, acceptEvent_known policy now h]
    cases acceptEvents K tenant agent policy now after db <;> rfl
  | b :: before, db, h => by
    simp only [List.cons_append, acceptEvents]
    rcases h₁ : acceptEvent K tenant agent policy now b db with err | ⟨tx, o⟩
    · rfl
    · obtain ⟨-, rs, hrs⟩ := acceptEvent_recorded h₁
      have ih := acceptEvents_skip policy now after before (h.mono hrs)
      simp only
      generalize acceptEvents K tenant agent policy now (before ++ e :: after) tx = x at ih ⊢
      generalize acceptEvents K tenant agent policy now (before ++ after) tx = y at ih ⊢
      rcases x with err | ⟨tx', os⟩ <;> rcases y with err' | ⟨tx'', os'⟩
      · exact ih
      · cases ih
      · cases ih
      · exact ih

/-- And its own outcome is `duplicate`. -/
theorem acceptEvents_duplicate {e : IngestEvent} :
    ∀ {events : List IngestEvent} {db db' : HubDB} {os : List IngestOutcome},
      AcceptedBefore K tenant agent [e] db → (events.map (·.eventID)).Nodup → e ∈ events →
      acceptEvents K tenant agent policy now events db = .ok (db', os) →
      ∀ o ∈ os, o.eventID = e.eventID → o.status = .duplicate
  | [], db, db', os, _, _, hm, _ => by cases hm
  | b :: events, db, db', os, h, hn, hm, ha => by
    obtain ⟨tx, o, os', h₁, h₂, rfl⟩ := acceptEvents_cons K ha
    simp only [List.map_cons, List.nodup_cons] at hn
    have hids := acceptEvents_eventIDs K h₂
    have ho : o.eventID = b.eventID := by
      obtain ⟨body, -, ⟨rfl, -, -⟩ | ⟨rfl, -⟩⟩ := acceptEvent_cases K h₁ <;> rfl
    intro o' ho' hid
    rcases List.mem_cons.1 hm with rfl | hm
    · rw [acceptEvent_known policy now h] at h₁
      cases h₁
      rcases List.mem_cons.1 ho' with rfl | ho'
      · rfl
      · refine absurd ?_ hn.1
        rw [← hid, ← hids]
        exact List.mem_map_of_mem ho'
    · rcases List.mem_cons.1 ho' with rfl | ho'
      · refine absurd ?_ hn.1
        rw [← ho, hid]
        exact List.mem_map_of_mem hm
      · obtain ⟨-, rs, hrs⟩ := acceptEvent_recorded h₁
        exact acceptEvents_duplicate (h.mono hrs) hn.2 hm h₂ o' ho' hid

end WMonitor
