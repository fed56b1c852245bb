import WMonitor.Proofs.Agent
import WMonitor.Proofs.SpoolRuns

/-!
# Exactly once

For any interleaving of the agent's calls, the network and the Hub, with crashes of the agent between
any two of its steps: no event is inserted twice, and an entry of the queue that a checkpoint has
passed, or whose segment was removed by a pass, was inserted (`reached_exactlyOnce`).
-/

namespace WMonitor

/-- The checkpoint of a record's segment has passed the record, or a pass has removed the segment. -/
def Spool.Released {η : Type} (s : Spool η) (x : Written) : Prop :=
  (∃ text m, Spool.HasAck s.progress s.custody x.name text ∧ atoi text = some m ∧ (x.index : ℤ) < m)
    ∨ x.name ∈ s.queue.removed

section Released

open Spool

variable {η : Type} {U : URLs} {O : Outside η} {s : Spool η} {x : Written}

/-- What was passed was delivered. -/
theorem Spool.Released.delivered (hp : s.Released x) (h : (protocol U O).inv s)
    (hx : x ∈ s.queue.written) (ht : x.name ∉ s.queue.torn) :
    DeliveredAt s.progress x.name x.index x.entry.stored := by
  rcases hp with ⟨text, m, hack, hm, hlt⟩ | hrem
  swap
  · exact h.removed x.name hrem ht x (mem_entriesOf hx)
  have hpassed : ∀ content, (s.queue.segs x.name = some content ∨ s.queue.held x.name = some content) →
      DeliveredAt s.progress x.name x.index x.entry.stored := by
    intro content hs
    obtain ⟨es, k, hdec, rfl, hk, hall⟩ := h.ack x.name text content hack hs
    have hlen := length_decodeSegment hdec
    simp only [maxSegmentBytes, maxRecordBytes] at hlen
    rw [atoi_itoa (by omega) (by omega), Option.some.injEq] at hm
    refine hall x.index (by omega) _ ?_
    rw [h.decoded ht hs hdec, List.getElem?_map, h.entry_at (mem_entriesOf hx)]
    rfl
  cases hs : s.queue.segs x.name with
  | some content => exact hpassed content (.inl hs)
  | none =>
    rcases h.gone x.name (h.writtenName x hx) hs with hheld | hrem
    · obtain ⟨content, hc⟩ := Option.ne_none_iff_exists'.1 hheld
      exact hpassed content (.inr hc)
    · exact h.removed x.name hrem ht x (mem_entriesOf hx)

end Released

namespace Agent

variable {U : URLs} {W : Wire} {tenant server : String}

/-- The events that the Hub has inserted. -/
def inserted (W : Wire) (w : World) : List (String × String × IngestEvent) :=
  insertedBy W.toEventCodec w.calls .empty

/-- How often the agent's event was inserted. -/
def insertions (W : Wire) (tenant server : String) (w : World) (ev : IngestEvent) : ℕ :=
  (inserted W w).countP fun x => logKey x = (tenant, server, ev.eventID)

theorem insertions_le_one {w : World} (hw : WorldInv W tenant server w) (ev : IngestEvent) :
    insertions W tenant server w ev ≤ 1 := by
  have hcount : insertions W tenant server w ev
      = ((inserted W w).map logKey).count (tenant, server, ev.eventID) := by
    rw [List.count, List.countP_map, insertions]
    exact congrArg (List.countP · _) (funext fun x => (beq_eq_decide _ _).symm)
  rw [hcount]
  exact List.nodup_iff_count_le_one.1 (insertedBy_keys_nodup hw.noCleanup) _

/-- An event that was inserted under the id of one that the agent drew is that event. -/
theorem inserted_of_logged {w : World} (hw : WorldInv W tenant server w) (hc : Clean W w)
    {ev : IngestEvent} (hev : ev ∈ w.drawn) (hl : Logged W tenant server w.calls ev.eventID) :
    (tenant, server, ev.filled tenant server) ∈ inserted W w := by
  obtain ⟨n, hn, hid⟩ := hl
  obtain ⟨batch, policy, now, hcall, batch', hnorm', hmem⟩ := insertedBy_call hn
  obtain ⟨body, hbody, raw, now', hraw, hnorm⟩ := hw.own batch policy now hcall
  rw [normalizeIngest_normal hnorm hnorm'] at hmem
  obtain ⟨e, he, rfl⟩ := normalizeIngest_filled hnorm hmem
  obtain ⟨raw', hraw', hdrawn⟩ := hc body hbody
  rw [hraw, Except.ok.injEq] at hraw'
  subst hraw'
  have heq : e = ev := List.inj_on_of_nodup_map hw.ids (hdrawn e he) hev hid
  rwa [heq] at hn

/-- What holds of the agent's queue and the Hub's tables after a run. -/
structure ExactlyOnce (W : Wire) (tenant server : String)
    (p : Pool (Spool World) (Choice AgentChoice) AgentError Unit AgentCall) : Prop where
  /-- The Hub's rows are those of the events it has inserted. -/
  metrics : p.shared.env.db.metrics.map (·.row)
    = (inserted W p.shared.env).filterMap fun x => metricOf x.1 x.2.1 x.2.2
  processes : p.shared.env.db.processes.map (·.row)
    = (inserted W p.shared.env).filterMap fun x => processOf x.1 x.2.1 x.2.2
  atMostOnce : ∀ ev, insertions W tenant server p.shared.env ev ≤ 1
  /-- A row whose `enqueue` succeeded has a record, which is read as the row's event if at all. -/
  enqueued : ∀ op row, (op, .insert row, .ok ()) ∈ p.results →
    ∃ x ∈ p.shared.queue.written, x.op = op ∧ ∃ ev ∈ p.shared.env.drawn, Stamped row ev
      ∧ ∀ ev', W.spooledEvent x.entry.stored.payloadType x.entry.stored.raw = .ok ev' → ev' = ev
  /-- What was passed is there, if no write has stopped halfway. -/
  passed : p.shared.queue.torn = [] → ∀ x ∈ p.shared.queue.written, p.shared.Released x →
    ∃ ev ∈ p.shared.env.drawn,
      W.spooledEvent x.entry.stored.payloadType x.entry.stored.raw = .ok ev
        ∧ insertions W tenant server p.shared.env ev = 1
        ∧ (tenant, server, ev.filled tenant server) ∈ inserted W p.shared.env

theorem reached_exactlyOnce (U : URLs) (W : Wire) (hW : W.RoundTrips) (hE : W.KeepsEvents)
    (tenant server : String)
    (turns : List (Turn (Choice AgentChoice) AgentCall (Reception × IngestRequest))) :
    ExactlyOnce W tenant server (reached U W tenant server turns) := by
  have hk : Pool.Kept (Spool.protocol U (outside W tenant server)) Spool.Fresh (Promise W)
      (reached U W tenant server turns) := reached_kept hW hE turns
  have hw := hk.inv.env
  obtain ⟨hmetrics, hprocesses⟩ := insertedBy_rows W.toEventCodec
    (reached U W tenant server turns).shared.env.calls .empty
  rw [← hw.tables] at hmetrics hprocesses
  refine ⟨hmetrics, hprocesses, insertions_le_one hw, ?_, ?_⟩
  · intro op row hr
    obtain ⟨x, hx, hop, ev, hev, hst, hty, text, henc, hbody⟩ : Enqueued W row op _ := hk.post _ hr
    refine ⟨x, hx, hop, ev, hev, hst, fun ev' hread => ?_⟩
    have hkeep := hE ev text x.entry.body henc hbody (spooledEvent_length hread)
    rw [SpoolEntry.stored, hty] at hread
    exact Except.ok.inj (hread.symm.trans hkeep)
  · intro htorn x hx hp
    have htx : x.name ∉ (reached U W tenant server turns).shared.queue.torn := by simp [htorn]
    obtain ⟨g, hg, -, -, hat⟩ := hp.delivered hk.inv hx htx
    obtain ⟨ev, hread, hl⟩ := hk.inv.taken g hg x.entry.stored (List.mem_of_getElem? hat)
    obtain ⟨ev', hev', hread'⟩ := hk.inv.admitted x hx (spooledEvent_length hread)
    obtain rfl : ev' = ev := Except.ok.inj (hread'.symm.trans hread)
    have hmem := inserted_of_logged hw (hk.inv.clean htorn) hev' hl
    refine ⟨ev', hev', hread, le_antisymm (insertions_le_one hw ev') ?_, hmem⟩
    exact List.countP_pos_iff.2 ⟨_, hmem, by simp [logKey, IngestEvent.filled]⟩

/-! ## A sample -/

/-- One event, alone and in a batch, with short texts in place of the real ones. -/
def shortWire (event : IngestEvent) : Wire where
  marshal e :=
    if e = event then .ok [49]
    else if e = event.filled "tenant-a" "agent-a" then .ok [50]
    else .error "not in the sample"
  sha256 _ := []
  parseMetric _ := .error "not in the sample"
  parseProcess _ := .error "not in the sample"
  parseEvent body :=
    if body = [49] then .ok event
    else if body = [50] then .ok (event.filled "tenant-a" "agent-a")
    else .error "not in the sample"
  parseBatch body :=
    if body = [51] then .ok ⟨ingestSchema, [event]⟩ else .error "not in the sample"
  unmarshalBatch body :=
    if body = [51] then .ok ⟨ingestSchema, [event]⟩ else .error "not in the sample"
  encodeBatch batch :=
    if batch = ⟨ingestSchema, [event]⟩ then .ok [51] else .error "not in the sample"

theorem shortWire_roundTrips (event : IngestEvent) : (shortWire event).RoundTrips := by
  intro batch body h hlen
  simp only [shortWire] at h
  split_ifs at h with hb
  cases h
  subst hb
  exact ⟨rfl, rfl⟩

theorem shortWire_encode {event e : IngestEvent} {text : List Char}
    (h : encode (shortWire event) e = .ok text) :
    (e = event ∧ text = ['1']) ∨ (e = event.filled "tenant-a" "agent-a" ∧ text = ['2']) := by
  have h₁ : decodeText [49] = some ['1'] := by decide +kernel
  have h₂ : decodeText [50] = some ['2'] := by decide +kernel
  simp only [encode, shortWire] at h
  split_ifs at h with he he'
  · simp only [h₁, Except.ok.injEq] at h
    exact .inl ⟨he, h.symm⟩
  · simp only [h₂, Except.ok.injEq] at h
    exact .inr ⟨he', h.symm⟩

theorem shortWire_keepsEvents (event : IngestEvent) : (shortWire event).KeepsEvents := by
  rintro e text body henc hparse -
  have hread : ∀ bytes : List UInt8,
      (Json.parse text).map (fun b => encodeText b.compact.print) = some bytes →
      encodeText body.compact.print = bytes := fun _ h => by
    rw [hparse] at h
    exact Option.some.inj h
  rcases shortWire_encode henc with ⟨rfl, rfl⟩ | ⟨rfl, rfl⟩
  · rw [hread [49] (by decide +kernel)]
    rfl
  · rw [hread [50] (by decide +kernel)]
    rfl

def sampleURLs : URLs := ⟨fun _ => some ⟨"https", "hub"⟩, id⟩

/-- The Hub on the first day of 2026. -/
def sampleReception : Reception where
  auth := .ok ⟨"tenant-a", "agent-a", "credential", kindAgent, "", 0⟩
  admitted := true
  available := true
  pressure := none
  policy := defaultIngestPolicy
  fault := .none
  receivedAt := 1767225600 * second
  acceptedAt := 1767225600 * second
  answeredAt := 1767225600 * second

/-- A choice without faults and with this reply. -/
def quiet (reply : Reply) : Choice AgentChoice :=
  { env := { boot := some 1, seed := some 0, id := some fun _ => 0, reply := reply } }

/-- The sample row as the agent sends it. -/
def sentEvent : IngestEvent :=
  (Row.metric sampleMetric).event (hexEncode (List.replicate 16 0)) "boot-1" 1

def duplicateAck : Ack := ⟨"accepted", [(sentEvent.eventID, "duplicate")]⟩

/-- The row goes to the Hub and the answer is lost, the agent crashes, and the next process sends it
again. -/
def crashRun : List (Turn (Choice AgentChoice) AgentCall (Reception × IngestRequest)) :=
  let request : IngestRequest := ⟨true, false, "", some [51]⟩
  let process (n : ℕ) (calls : List AgentCall) (reply : Reply) :
      List (Turn (Choice AgentChoice) AgentCall (Reception × IngestRequest)) :=
    (calls.zipIdx n).flatMap fun (call, i) =>
      .start call :: List.replicate 40 (.thread i (quiet reply))
  process 0 [.start "https://hub" "key", .bindIdentity "tenant-a" "agent-a",
      .insert (.metric sampleMetric)] .lost
    ++ .start .drainTurn :: List.replicate 24 (.thread 3 (quiet (.response 202 (some duplicateAck) 0)))
    ++ [.env (sampleReception, request)]
    ++ List.replicate 10 (.thread 3 (quiet .lost))
    ++ [.restart]
    ++ process 4 [.start "https://hub" "key", .bindIdentity "tenant-a" "agent-a"] .lost
    ++ .start .drainTurn :: List.replicate 24 (.thread 6 (quiet (.response 202 (some duplicateAck) 0)))
    ++ [.env (sampleReception, request)]
    ++ List.replicate 30 (.thread 6 (quiet (.response 202 (some duplicateAck) 0)))

theorem crashRun_reached :
    (reached sampleURLs (shortWire sentEvent) "tenant-a" "agent-a" crashRun).results
        = [(0, .start "https://hub" "key", .ok ()), (1, .bindIdentity "tenant-a" "agent-a", .ok ()),
          (2, .insert (.metric sampleMetric), .ok ()),
          (3, .drainTurn, .error (.spool (retryable "agent: transport failed" 0))),
          (4, .start "https://hub" "key", .ok ()), (5, .bindIdentity "tenant-a" "agent-a", .ok ()),
          (6, .drainTurn, .ok ())]
      ∧ (reached sampleURLs (shortWire sentEvent) "tenant-a" "agent-a" crashRun).shared.queue.torn = []
      ∧ (reached sampleURLs (shortWire sentEvent) "tenant-a" "agent-a" crashRun).shared.queue.removed
        = [⟨0, 0⟩]
      ∧ (reached sampleURLs (shortWire sentEvent) "tenant-a" "agent-a" crashRun).shared.env.sent
        = [[51], [51]] := by
  decide +kernel

theorem reached_exactlyOnce_crash :
    (reached sampleURLs (shortWire sentEvent) "tenant-a" "agent-a" crashRun).shared.queue.removed
        = [⟨0, 0⟩]
      ∧ ExactlyOnce (shortWire sentEvent) "tenant-a" "agent-a"
        (reached sampleURLs (shortWire sentEvent) "tenant-a" "agent-a" crashRun) :=
  ⟨crashRun_reached.2.2.1, reached_exactlyOnce sampleURLs (shortWire sentEvent)
    (shortWire_roundTrips sentEvent) (shortWire_keepsEvents sentEvent) "tenant-a" "agent-a" crashRun⟩

end Agent

end WMonitor
