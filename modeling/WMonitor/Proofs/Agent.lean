import WMonitor.Proofs.Accepted
import WMonitor.Proofs.Legacy
import WMonitor.Proofs.SpoolDrain

/-!
# What the agent and the Hub keep to

The invariant of the world around the queue: the Hub's tables are those of its transactions, the
transactions under the agent's credential are on batches that it sent, and what was acknowledged to it
was inserted. With it the agent's calls are safe for the queue's protocol: `enqueue` puts an event
with a new id into the queue, and `deliverBatch` succeeds only on groups that the Hub has inserted.
-/

namespace WMonitor

/-- What the agent puts into its queue is read back as it was, unless it is too long to be read. -/
def Wire.KeepsEvents (W : Wire) : Prop :=
  ∀ event text body, Agent.encode W event = .ok text → Json.parse text = some body →
    (encodeText body.compact.print).length ≤ maxBatchBytes →
    W.spooledEvent "event" (encodeText body.compact.print) = .ok event

namespace Agent

open Prog Spool

variable (U : URLs) (W : Wire) (tenant server : String)

/-! ## The world -/

/-- The Hub has inserted an event under this id. -/
def Logged (calls : List IngestCall) (eventID : String) : Prop :=
  ∃ n, (tenant, server, n) ∈ insertedBy W.toEventCodec calls .empty ∧ n.eventID = eventID

/-- The boot id that `newAgent` makes of a time. -/
def Booted (bootID : String) : Prop :=
  ∃ boot : UInt64, bootID = "boot-" ++ String.ofList (itoa boot.toNat)

structure WorldInv (w : World) : Prop where
  tables : w.db = runIngest W.toEventCodec w.calls .empty
  noCleanup : NoCleanup w.calls
  ids : (w.drawn.map (·.eventID)).Nodup
  booted : ∀ a, w.agent = some a → a.initErr = none → Booted a.bootID
  /-- The transactions of the agent are on what it sent. -/
  own : ∀ batch policy now, .accept tenant server batch policy now ∈ w.calls →
    ∃ body ∈ w.sent, ∃ raw now', decodeIngest W.parseBatch body = .ok raw
      ∧ normalizeIngest raw tenant server now' = .ok batch
  /-- What is acknowledged is inserted. -/
  acked : ∀ x ∈ w.acks, ∃ raw, decodeIngest W.parseBatch x.1 = .ok raw
    ∧ ∀ ev ∈ raw.events, Logged W tenant server w.calls ev.eventID

structure WorldSees (w w' : World) : Prop where
  drawn : w.drawn <+: w'.drawn
  calls : w.calls <+: w'.calls
  boot : ∀ a, w.agent = some a → ∃ a', w'.agent = some a' ∧ a'.bootID = a.bootID

/-- Every batch that was sent is made of events that the agent drew. -/
def Clean (w : World) : Prop :=
  ∀ body ∈ w.sent, ∃ raw, decodeIngest W.parseBatch body = .ok raw ∧ ∀ ev ∈ raw.events, ev ∈ w.drawn

/-- The Hub has inserted the events of these entries. -/
def Taken (group : List SpoolEntry) (w : World) : Prop :=
  ∀ x ∈ group, ∃ ev, W.spooledEvent x.payloadType x.raw = .ok ev
    ∧ Logged W tenant server w.calls ev.eventID

/-- The entry is read as an event that the agent drew, if it is read. -/
def Drawn (x : SpoolEntry) (w : World) : Prop :=
  x.stored.raw.length ≤ maxBatchBytes →
    ∃ ev ∈ w.drawn, W.spooledEvent x.stored.payloadType x.stored.raw = .ok ev

variable {W tenant server} {w w' : World}

theorem Logged.mono {calls calls' : List IngestCall} {eventID : String}
    (h : Logged W tenant server calls eventID) (hc : calls <+: calls') :
    Logged W tenant server calls' eventID := by
  obtain ⟨n, hn, hid⟩ := h
  obtain ⟨rest, rfl⟩ := hc
  refine ⟨n, ?_, hid⟩
  rw [insertedBy_append]
  exact List.mem_append_left _ hn

theorem WorldSees.refl (w : World) : WorldSees w w :=
  ⟨List.prefix_rfl, List.prefix_rfl, fun a h => ⟨a, h, rfl⟩⟩

theorem WorldSees.trans {w'' : World} (h : WorldSees w w') (h' : WorldSees w' w'') :
    WorldSees w w'' where
  drawn := h.drawn.trans h'.drawn
  calls := h.calls.trans h'.calls
  boot a ha := by
    obtain ⟨a', ha', hb⟩ := h.boot a ha
    obtain ⟨a'', ha'', hb'⟩ := h'.boot a' ha'
    exact ⟨a'', ha'', hb'.trans hb⟩

variable (W tenant server) in
def outside : Outside World where
  inv := WorldInv W tenant server
  sees _ := WorldSees
  refl _ := WorldSees.refl
  trans := WorldSees.trans
  taken := Taken W tenant server
  takenSees hs ht x hx := by
    obtain ⟨ev, hev, hl⟩ := ht x hx
    exact ⟨ev, hev, hl.mono hs.calls⟩
  admits := Drawn W
  admitsSees hs ha hlen := by
    obtain ⟨ev, hev, hread⟩ := ha hlen
    exact ⟨ev, hs.drawn.subset hev, hread⟩
  clean := Clean W

/-- A change of the process that keeps when it was booted, and does not forget its error. -/
theorem WorldInv.setAgent (h : WorldInv W tenant server w) {f : Agent → Agent}
    (hboot : ∀ a, (f a).bootID = a.bootID) (hinit : ∀ a, (f a).initErr = none → a.initErr = none) :
    WorldInv W tenant server (setAgent f w) ∧ WorldSees w (setAgent f w) := by
  refine ⟨{ h with booted := ?_ }, List.prefix_rfl, List.prefix_rfl, fun a ha => ⟨f a, ?_, hboot a⟩⟩
  · intro a ha hi
    obtain ⟨a', ha', rfl⟩ := Option.map_eq_some_iff.1 ha
    rw [hboot]
    exact h.booted a' ha' (hinit a' hi)
  · rw [Agent.setAgent, ha]
    rfl

theorem booted_newAgent {hubURL apiKey : String} {opened : Except SpoolError Unit}
    {boot seed : Option UInt64} (h : (newAgent U hubURL apiKey opened boot seed).initErr = none) :
    Booted (newAgent U hubURL apiKey opened boot seed).bootID := by
  unfold newAgent at h ⊢
  dsimp only at h ⊢
  by_cases hub : U.requireHTTPSHub hubURL = true
  swap
  · simp [hub] at h
  simp only [hub, Bool.not_true, Bool.false_eq_true, if_false] at h ⊢
  cases opened with
  | error e => cases h
  | ok a =>
    dsimp only at h ⊢
    by_cases hboot : boot.getD 0 = 0
    · simp [hboot] at h
    · simp only [if_neg hboot] at h ⊢
      cases seed with
      | none => cases h
      | some seed => exact ⟨boot.getD 0, rfl⟩

/-! ## The Hub -/

theorem owned_iff {r : Reception} : World.owned tenant server r = true ↔
    ∃ p, r.auth = .ok p ∧ p.tenantID = tenant ∧ p.agentID = server := by
  unfold World.owned
  cases r.auth <;> simp

/-- A request of the agent is read as a batch that it sent. -/
theorem Reaches.sent {r : Reception} {req : IngestRequest} {p : Principal} {batch : IngestBatch}
    (hr : r.Reaches W p req batch) (hp : World.owned tenant server r = true)
    (ha : w.arrives tenant server r req = true) :
    ∃ body ∈ w.sent, req.body = some body ∧ ∃ raw, decodeIngest W.parseBatch body = .ok raw
      ∧ normalizeIngest raw tenant server r.receivedAt = .ok batch := by
  obtain ⟨body, raw, hbody, -, hread, hnorm⟩ := hr.read
  obtain ⟨p', hauth, rfl, rfl⟩ := owned_iff.1 hp
  rw [hr.auth, Except.ok.injEq] at hauth
  subst hauth
  simp only [World.arrives, hp, Bool.not_true, Bool.false_or, Bool.and_eq_true, Bool.not_eq_true',
    hbody, Option.all_some, List.contains_iff_mem] at ha
  refine ⟨body, ha.2, hbody, raw, ?_, hnorm⟩
  rw [Wire.readBatch, ha.1] at hread
  rcases hdec : decodeIngest W.parseBatch body with e | raw' <;> rw [hdec] at hread
  · cases hread
  · cases hread
    rfl

/-- The Hub keeps the invariant, whatever it is sent by whom. -/
theorem WorldInv.receive (h : WorldInv W tenant server w) (x : Reception × IngestRequest) :
    WorldInv W tenant server (w.receive W tenant server x)
      ∧ WorldSees w (w.receive W tenant server x)
      ∧ (Clean W w → Clean W (w.receive W tenant server x)) := by
  by_cases harr : w.arrives tenant server x.1 x.2 = true
  swap
  · rw [World.receive, if_neg harr]
    exact ⟨h, .refl w, id⟩
  rw [World.receive, if_pos harr]
  have hdb : (receiveBatch W x.1 x.2 w.db).1
      = runIngest W.toEventCodec (w.calls ++ x.1.calls W x.2) .empty := by
    rw [runIngest_append, ← h.tables, receiveBatch_calls]
  have hclean : NoCleanup (w.calls ++ x.1.calls W x.2) := by
    intro c hc
    rcases List.mem_append.1 hc with hc | hc
    · exact h.noCleanup c hc
    · exact calls_noCleanup W x.1 x.2 c hc
  refine ⟨⟨hdb, hclean, h.ids, h.booted, ?_, ?_⟩,
    ⟨List.prefix_rfl, List.prefix_append _ _, fun a ha => ⟨a, ha, rfl⟩⟩, id⟩
  · intro batch policy now hc
    rcases List.mem_append.1 hc with hc | hc
    · exact h.own batch policy now hc
    · obtain ⟨p, hpt, hpa, hreach⟩ := mem_calls W hc
      obtain ⟨body, hbody, -, raw, hraw⟩ :=
        Reaches.sent hreach (owned_iff.2 ⟨p, hreach.auth, hpt, hpa⟩) harr
      exact ⟨body, hbody, raw, _, hraw⟩
  · intro y hy
    have hold : y ∈ w.acks → ∃ raw, decodeIngest W.parseBatch y.1 = .ok raw
        ∧ ∀ ev ∈ raw.events,
          Logged W tenant server (w.calls ++ x.1.calls W x.2) ev.eventID := fun hy => by
      obtain ⟨raw, hraw, hl⟩ := h.acked y hy
      exact ⟨raw, hraw, fun ev hev => (hl ev hev).mono (List.prefix_append _ _)⟩
    dsimp only at hy
    split at hy
    · rename_i body ack hbody hack
      split_ifs at hy with hown
      swap
      · exact hold hy
      rcases List.mem_append.1 hy with hy | hy
      · exact hold hy
      obtain rfl := List.mem_singleton.1 hy
      -- a new acknowledgement: its batch has its receipts, so it was inserted
      obtain ⟨p, hauth, hpt, hpa⟩ := owned_iff.1 hown
      obtain ⟨batch, hreach, hacc⟩ := acked_recorded W hauth hack
      obtain ⟨body', -, hbody', raw, hraw, hnorm⟩ := Reaches.sent hreach hown harr
      rw [hbody, Option.some.injEq] at hbody'
      subst hbody'
      refine ⟨raw, hraw, fun ev hev => ?_⟩
      rw [hdb, hpt, hpa] at hacc
      have hmem := filled_mem_normalizeIngest hnorm hev
      refine logged_of_accepted hclean (e := ev.filled tenant server) fun e' he' => ?_
      rw [List.mem_singleton.1 he']
      exact hacc _ hmem
    · exact hold hy

/-! ## Steps -/

variable {U} {t : ℕ} {α ε : Type} {P : Spool World → Prop} {E : ε → Spool World → Prop}

/-- What a thread knows of the past of the world stays true. -/
theorem stable_world {R : World → Prop} (hR : ∀ w w', WorldSees w w' → R w → R w') :
    (protocol U (outside W tenant server)).Stable t fun s => R s.env :=
  fun _ _ _ _ h hr => hR _ _ h.env hr

/-- A thread may change the world within its own protocol. -/
theorem allows_world {s : Spool World} (hi : (protocol U (outside W tenant server)).inv s)
    {w : World} (hw : WorldInv W tenant server w) (hs : WorldSees s.env w)
    (hc : Clean W s.env → Clean W w) :
    (protocol U (outside W tenant server)).Allows t s { s with env := w } :=
  allows_env hi ⟨hw, fun _ _ => hs⟩ fun ht => hc (Inv.clean hi ht)

/-- What is known of the queue and of the past of the world. -/
structure Steady (U : URLs) (W : Wire) (tenant server : String) (t : ℕ) (P : Spool World → Prop) :
    Prop where
  stable : (protocol U (outside W tenant server)).Stable t P
  world : ∀ s w, WorldSees s.env w → P s → P { s with env := w }

theorem Steady.const (p : Prop) : Steady U W tenant server t fun _ => p :=
  ⟨.const p, fun _ _ _ h => h⟩

theorem Steady.ofWorld {R : World → Prop} (hR : ∀ w w', WorldSees w w' → R w → R w') :
    Steady U W tenant server t fun s => R s.env :=
  ⟨stable_world hR, fun s w hs h => hR s.env w hs h⟩

theorem lockAgent_triple (hP : Steady U W tenant server t P) {E : AgentError → Spool World → Prop}
    (hE : ∀ e, (protocol U (outside W tenant server)).Stable t (E e)) :
    Triple (protocol U (outside W tenant server)) t P (lockAgent t) (fun _ => P) E := by
  refine Triple.act hP.stable (fun _ => hP.stable) hE ?_ ?_
  · intro s c a s' hi hs hf
    split_ifs at hf
    cases hf
    have hsees : WorldSees s.env { s.env with agentMu := some t } := ⟨List.prefix_rfl,
      List.prefix_rfl, fun a ha => ⟨a, ha, rfl⟩⟩
    exact ⟨allows_world hi { hi.env with } hsees id, hP.world s _ hsees hs⟩
  · intro s c e s' _ _ hf
    split_ifs at hf
    cases hf

theorem unlockAgent_triple (hP : Steady U W tenant server t P) {E : AgentError → Spool World → Prop}
    (hE : ∀ e, (protocol U (outside W tenant server)).Stable t (E e)) :
    Triple (protocol U (outside W tenant server)) t P unlockAgent (fun _ => P) E := by
  refine Triple.modify hP.stable hP.stable hE fun s hi hs => ?_
  have hsees : WorldSees s.env { s.env with agentMu := none } := ⟨List.prefix_rfl,
    List.prefix_rfl, fun a ha => ⟨a, ha, rfl⟩⟩
  exact ⟨allows_world hi { hi.env with } hsees id, hP.world s _ hsees hs⟩

/-- The mutex makes no difference to what is known of the past. -/
theorem locked_triple {p : AgentM α} {Q : α → Spool World → Prop}
    {E : AgentError → Spool World → Prop} (hP : Steady U W tenant server t P)
    (hQ : ∀ a, Steady U W tenant server t (Q a)) (hE : ∀ e, Steady U W tenant server t (E e))
    (hp : Triple (protocol U (outside W tenant server)) t P p Q E) :
    Triple (protocol U (outside W tenant server)) t P (locked t p) Q E := by
  refine Triple.bind (lockAgent_triple hP fun e => (hE e).stable) fun _ => ?_
  refine Triple.bind hp.attempt fun r => ?_
  cases r with
  | ok a =>
    exact Triple.bind (unlockAgent_triple (hQ a) fun e => (hE e).stable) fun _ =>
      Triple.ret (hQ a).stable fun _ _ h => h
  | error e =>
    exact Triple.bind (unlockAgent_triple (hE e) fun e => (hE e).stable) fun _ =>
      Triple.fail (hE e).stable fun _ _ h => h

/-- Waiting for the mutex, or reading under it. -/
theorem act_triple {f : Agent → Spool World → Choice AgentChoice → Option (Except ε α × Spool World)}
    {Q : α → Spool World → Prop} (hP : (protocol U (outside W tenant server)).Stable t P)
    (hQ : ∀ a, (protocol U (outside W tenant server)).Stable t (Q a))
    (hE : ∀ e, (protocol U (outside W tenant server)).Stable t (E e))
    (hok : ∀ a s c b s', (protocol U (outside W tenant server)).inv s → P s → s.env.agent = some a →
      f a s c = some (.ok b, s') →
      (protocol U (outside W tenant server)).Allows t s s' ∧ Q b s')
    (herr : ∀ a s c e s', (protocol U (outside W tenant server)).inv s → P s →
      s.env.agent = some a → f a s c = some (.error e, s') →
      (protocol U (outside W tenant server)).Allows t s s' ∧ E e s') :
    Triple (protocol U (outside W tenant server)) t P (Agent.act f) Q E := by
  refine Triple.act hP hQ hE ?_ ?_
  · intro s c b s' hi hs hf
    obtain ⟨a, ha, hf⟩ := Option.bind_eq_some_iff.1 hf
    exact hok a s c b s' hi hs ha hf
  · intro s c e s' hi hs hf
    obtain ⟨a, ha, hf⟩ := Option.bind_eq_some_iff.1 hf
    exact herr a s c e s' hi hs ha hf

theorem modifyAgent_triple {f : Agent → Agent} (hboot : ∀ a, (f a).bootID = a.bootID)
    (hinit : ∀ a, (f a).initErr = none → a.initErr = none) (hP : Steady U W tenant server t P)
    {E : AgentError → Spool World → Prop}
    (hE : ∀ e, (protocol U (outside W tenant server)).Stable t (E e)) :
    Triple (protocol U (outside W tenant server)) t P (modifyAgent f) (fun _ => P) E := by
  refine Triple.modify hP.stable hP.stable hE fun s hi hs => ?_
  obtain ⟨hw, hsees⟩ := WorldInv.setAgent hi.env hboot hinit
  exact ⟨allows_world hi hw hsees id, hP.world s _ hsees hs⟩

/-! ## Enqueue -/

theorem start_triple (hubURL apiKey : String) :
    Triple (protocol U (outside W tenant server)) t (fun _ => True) (start U hubURL apiKey)
      (fun _ _ => True) fun _ _ => True := by
  refine Triple.act (.const _) (fun _ => .const _) (fun _ => .const _) ?_ ?_
  · intro s c a s' hi _ hf
    by_cases hnone : s.env.agent.isSome = true
    · simp [hnone] at hf
    simp only [if_neg hnone] at hf
    cases hf
    refine ⟨allows_world hi { hi.env with booted := ?_ } ⟨List.prefix_rfl, List.prefix_rfl, ?_⟩ id,
      trivial⟩
    · intro a ha hinit
      obtain rfl := Option.some.inj ha
      exact booted_newAgent U hinit
    · intro a ha
      simp [ha] at hnone
  · intro s c e s' _ _ hf
    by_cases hnone : s.env.agent.isSome = true
    · simp [hnone] at hf
    · simp only [if_neg hnone] at hf
      cases hf

theorem theAgent_triple (hP : (protocol U (outside W tenant server)).Stable t P)
    {E : AgentError → Spool World → Prop}
    (hE : ∀ e, (protocol U (outside W tenant server)).Stable t (E e)) :
    Triple (protocol U (outside W tenant server)) t P theAgent
      (fun a s => (a.initErr = none → ∃ a', s.env.agent = some a' ∧ Booted a'.bootID) ∧ P s) E := by
  have hboot : ∀ a : Agent, (protocol U (outside W tenant server)).Stable t fun s =>
      a.initErr = none → ∃ a', s.env.agent = some a' ∧ Booted a'.bootID := by
    intro a
    refine stable_world (R := fun w => a.initErr = none → ∃ a', w.agent = some a' ∧ Booted a'.bootID)
      fun w w' hs h hinit => ?_
    obtain ⟨a', ha', hb⟩ := h hinit
    obtain ⟨a'', ha'', hb'⟩ := hs.boot a' ha'
    exact ⟨a'', ha'', hb' ▸ hb⟩
  refine act_triple hP (fun a => (hboot a).and hP) hE ?_ ?_
  · rintro a s c b s' hi hs ha hf
    cases hf
    exact ⟨.idle hi, fun hinit => ⟨a, ha, hi.env.booted a ha hinit⟩, hs⟩
  · rintro a s c e s' - - - hf
    cases hf

theorem bindIdentity_triple (bindTenant bindServer : String) :
    Triple (protocol U (outside W tenant server)) t (fun _ => True)
      (bindIdentity U t bindTenant bindServer) (fun _ _ => True) fun _ _ => True := by
  have htrue : Steady U W tenant server t fun _ => True := .const True
  refine locked_triple htrue (fun _ => htrue) (fun _ => htrue) ?_
  refine Triple.bind ((theAgent_triple htrue.stable fun _ => htrue.stable).conseq (fun _ _ h => h)
    (fun _ _ _ h => h.2) fun _ _ _ h => h) fun a => ?_
  split_ifs
  · refine modifyAgent_triple ?_ ?_ htrue fun _ => htrue.stable
    · exact fun _ => rfl
    · exact fun _ h => nomatch h
  refine Triple.bind (Q := fun _ _ => True) ((bindDestination_triple a.hubURL bindTenant
    bindServer).attempt.conseq (fun _ _ h => h) (fun _ _ _ _ => trivial) fun _ _ _ h => h) fun r => ?_
  cases r with
  | error e =>
    refine modifyAgent_triple ?_ ?_ htrue fun _ => htrue.stable
    · exact fun _ => rfl
    · exact fun _ h => nomatch h
  | ok u =>
    refine modifyAgent_triple ?_ ?_ htrue fun _ => htrue.stable
    · exact fun _ => rfl
    · exact fun _ h => h

/-- An event as `enqueue` makes it of a row. -/
def Stamped (row : Row) (ev : IngestEvent) : Prop :=
  ∃ (id : Fin 16 → UInt8) (bootID : String) (sequence : ℕ), Booted bootID ∧ 0 < sequence
    ∧ sequence ≤ maxInt64 ∧ ev = row.event (hexEncode (List.ofFn id)) bootID sequence

theorem stamp_triple (row : Row) :
    Triple (protocol U (outside W tenant server)) t
      (fun s => ∃ a, s.env.agent = some a ∧ Booted a.bootID) (stamp row)
      (fun ev s => Stamped row ev ∧ ev ∈ s.env.drawn) fun _ _ => True := by
  have hboot : (protocol U (outside W tenant server)).Stable t
      fun s => ∃ a, s.env.agent = some a ∧ Booted a.bootID := by
    refine stable_world (R := fun w => ∃ a, w.agent = some a ∧ Booted a.bootID) fun w w' hs h => ?_
    obtain ⟨a, ha, hb⟩ := h
    obtain ⟨a', ha', hb'⟩ := hs.boot a ha
    exact ⟨a', ha', hb' ▸ hb⟩
  have hdrawn : ∀ ev, (protocol U (outside W tenant server)).Stable t
      fun s => Stamped row ev ∧ ev ∈ s.env.drawn := fun ev =>
    stable_world (R := fun w => Stamped row ev ∧ ev ∈ w.drawn)
      fun w w' hs h => ⟨h.1, hs.drawn.subset h.2⟩
  refine act_triple hboot hdrawn (fun _ => .const _) ?_ ?_
  · rintro a s c ev s' hi ⟨a', ha', hb⟩ ha hf
    obtain rfl : a' = a := Option.some.inj (ha'.symm.trans ha)
    dsimp only at hf
    split_ifs at hf with hseq
    · cases hf
    split at hf
    · cases hf
    rename_i id hid
    split_ifs at hf with hnew
    cases hf
    obtain ⟨hw, hsees⟩ := WorldInv.setAgent (f := fun a => { a with sequence := a.sequence + 1 })
      hi.env (fun _ => rfl) fun _ h => h
    refine ⟨allows_world hi { hw with ids := ?_ }
      ⟨hsees.drawn.trans (List.prefix_append _ _), hsees.calls, hsees.boot⟩ ?_, ?_, ?_⟩
    · -- the id is new
      rw [List.map_append, List.map_cons, List.map_nil]
      refine List.nodup_append.2 ⟨hw.ids, List.nodup_singleton _, ?_⟩
      rintro k hk _ hk' rfl
      rw [List.mem_singleton.1 hk'] at hk
      exact hnew hk
    · intro hc body hbody
      obtain ⟨raw, hraw, hev⟩ := hc body hbody
      exact ⟨raw, hraw, fun ev he => List.mem_append_left _ (hev ev he)⟩
    · exact ⟨id, a'.bootID, a'.sequence + 1, hb, Nat.succ_pos _, by omega, rfl⟩
    · exact List.mem_append_right _ (List.mem_singleton_self _)
  · rintro a s c e s' hi - ha hf
    dsimp only at hf
    split_ifs at hf
    · cases hf
      exact ⟨.idle hi, trivial⟩
    · split at hf
      · cases hf
        obtain ⟨hw, hsees⟩ := WorldInv.setAgent (f := fun a => { a with sequence := a.sequence + 1 })
          hi.env (fun _ => rfl) fun _ h => h
        exact ⟨allows_world hi hw hsees id, trivial⟩
      · split_ifs at hf
        cases hf

theorem bindCredential_triple (a : Agent) (rowServer : String)
    (hP : Steady U W tenant server t P)
    (hP' : ∀ u s s', Sees (outside W tenant server) u s s' → P s → P s') :
    Triple (protocol U (outside W tenant server)) t P (bindCredential W U t a rowServer)
      (fun _ => P) fun _ _ => True := by
  unfold bindCredential
  split_ifs
  · exact Triple.ret hP.stable fun _ _ h => h
  refine Triple.guard fun _ => ?_
  refine Triple.bind (Q := fun _ => P) (Triple.mapError (((bindDestination_triple a.hubURL _
    rowServer).frame hP').conseq (fun _ _ h => ⟨trivial, h⟩) (fun _ _ _ h => h.2)
    fun _ _ _ _ => trivial)) fun _ => ?_
  refine modifyAgent_triple ?_ ?_ hP fun _ => .const _
  · exact fun _ => rfl
  · exact fun _ h => h

/-- What `enqueue` promises when it returns without an error: a record of the row's event, read as
that event when it is read. -/
def Enqueued (W : Wire) (row : Row) (t : ℕ) (s : Spool World) : Prop :=
  ∃ x ∈ s.queue.written, x.op = t ∧ ∃ ev ∈ s.env.drawn, Stamped row ev
    ∧ x.entry.payloadType = "event"
    ∧ ∃ text, encode W ev = .ok text ∧ Json.parse text = some x.entry.body

theorem Enqueued.sees {row : Row} {u : ℕ} {s s' : Spool World}
    (h : Sees (outside W tenant server) u s s') (he : Enqueued W row t s) : Enqueued W row t s' := by
  obtain ⟨x, hx, hop, ev, hev, hrest⟩ := he
  exact ⟨x, h.written.subset hx, hop, ev, h.env.drawn.subset hev, hrest⟩

theorem enqueue_triple (hE : W.KeepsEvents) (row : Row) :
    Triple (protocol U (outside W tenant server)) t (fun _ => True) (enqueue W U t row)
      (fun _ => Enqueued W row t) fun _ _ => True := by
  have htrue : Steady U W tenant server t fun _ => True := .const True
  have hboot : ∀ w w' : World, WorldSees w w' → (∃ a, w.agent = some a ∧ Booted a.bootID) →
      ∃ a, w'.agent = some a ∧ Booted a.bootID := by
    rintro w w' hs ⟨a, ha, hb⟩
    obtain ⟨a', ha', hb'⟩ := hs.boot a ha
    exact ⟨a', ha', hb' ▸ hb⟩
  have hpost : Steady U W tenant server t (Enqueued W row t) := by
    refine ⟨fun s s' _ _ h he => he.sees h, fun s w hs he => ?_⟩
    obtain ⟨x, hx, hop, ev, hev, hrest⟩ := he
    exact ⟨x, hx, hop, ev, hs.drawn.subset hev, hrest⟩
  refine locked_triple htrue (fun _ => hpost) (fun _ => htrue) ?_
  refine Triple.bind (theAgent_triple htrue.stable fun _ => htrue.stable) fun a => ?_
  refine Triple.guard fun _ => ?_
  cases hinit : a.initErr with
  | some e => exact Triple.refuse _
  | none =>
    refine Triple.bind ((bindCredential_triple a row.serverID (Steady.ofWorld hboot)
      fun u s s' h hb => hboot _ _ h.env hb).pre fun s _ h => h.1 rfl) fun _ => ?_
    refine Triple.bind (stamp_triple row) fun ev => ?_
    have hdrawn : Steady U W tenant server t fun s => Stamped row ev ∧ ev ∈ s.env.drawn :=
      Steady.ofWorld (R := fun w => Stamped row ev ∧ ev ∈ w.drawn)
        fun w w' hs h => ⟨h.1, hs.drawn.subset h.2⟩
    refine Triple.bind (Q := fun text s => encode W ev = .ok text ∧ Stamped row ev
      ∧ ev ∈ s.env.drawn) ?_ fun text => Triple.assume fun henc => ?_
    · cases henc : encode W ev with
      | ok text => exact Triple.ret ((Protocol.Stable.const _).and hdrawn.stable) fun s _ h => ⟨rfl, h⟩
      | error e => exact Triple.fail (.const _) fun _ _ _ => trivial
    have hlater : ∀ u (s s' : Spool World), (protocol U (outside W tenant server)).sees u s s' →
        Stamped row ev ∧ ev ∈ s.env.drawn → Stamped row ev ∧ ev ∈ s'.env.drawn :=
      fun u s s' h hb => ⟨hb.1, h.env.drawn.subset hb.2⟩
    refine Triple.mapError (((append_triple "event" text).frame hlater).conseq ?_ ?_
      fun _ _ _ _ => trivial)
    · rintro s - ⟨hst, hev⟩
      refine ⟨fun now entry hnew hlen => ⟨ev, hev, ?_⟩, hst, hev⟩
      obtain ⟨hty, hbody, -⟩ := newEntry_ok hnew
      rw [SpoolEntry.stored, hty]
      exact hE ev text entry.body henc hbody hlen
    · rintro - s - ⟨⟨x, hx, hop, hty, hbody⟩, hst, hev⟩
      exact ⟨x, hx, hop, ev, hev, hst, hty, text, henc, hbody⟩

/-! ## Draining -/

theorem spooledEvent_length {payloadType : String} {body : List UInt8} {ev : IngestEvent}
    (h : W.spooledEvent payloadType body = .ok ev) : body.length ≤ maxBatchBytes := by
  unfold Wire.spooledEvent at h
  split_ifs at h
  · split at h
    · cases h
    · rename_i hdec
      exact decodeIngest_ok hdec
  · unfold Wire.spooledLegacy at h
    obtain ⟨x, hx, -⟩ := Table.ok_of_bind h
    split_ifs at hx
    · split at hx
      · cases hx
      · rename_i hdec
        exact decodeIngest_ok hdec
    · split at hx
      · cases hx
      · rename_i hdec
        exact decodeIngest_ok hdec

/-- The events of a group are those of its entries. -/
theorem spooledEvents_entries : ∀ {entries : List SpoolEntry} {events : List IngestEvent},
    W.spooledEvents entries = .ok events →
    (∀ x ∈ entries, ∃ ev ∈ events, W.spooledEvent x.payloadType x.raw = .ok ev)
      ∧ ∀ ev ∈ events, ∃ x ∈ entries, W.spooledEvent x.payloadType x.raw = .ok ev
  | [], events, h => by
    cases h
    simp
  | x :: entries, events, h => by
    simp only [Wire.spooledEvents] at h
    obtain ⟨ev, hev, h⟩ := Table.ok_of_bind h
    obtain ⟨rest, hrest, h⟩ := Table.ok_of_bind h
    cases h
    obtain ⟨hl, hr⟩ := spooledEvents_entries hrest
    constructor
    · intro y hy
      rcases List.mem_cons.1 hy with rfl | hy
      · exact ⟨ev, List.mem_cons_self, hev⟩
      · obtain ⟨ev', hev', hy'⟩ := hl y hy
        exact ⟨ev', List.mem_cons_of_mem _ hev', hy'⟩
    · intro ev' hev'
      rcases List.mem_cons.1 hev' with rfl | hev'
      · exact ⟨x, List.mem_cons_self, hev⟩
      · obtain ⟨y, hy, hy'⟩ := hr ev' hev'
        exact ⟨y, List.mem_cons_of_mem _ hy, hy'⟩

/-- The reply passes for the acknowledgement of the body. -/
def Passes (W : Wire) (body : List UInt8) : Reply → Prop
  | .response status ack _ => (status = 202 ∨ status = 200) ∧ W.checkAck body ack = .ok ()
  | _ => False

theorem isOk_checkAck {body : List UInt8} {ack : Option Ack} (h : W.checkAck body ack = .ok ()) :
    (W.checkAck body ack).isOk = true := by
  rw [h]
  rfl

/-- What the Hub acknowledged is taken. -/
theorem taken_of_passes (hW : W.RoundTrips) {group : List SpoolEntry} {body : List UInt8}
    (hbody : W.batchBody group = .ok body) {w : World} (hw : WorldInv W tenant server w)
    {reply : Reply} (hp : permits W w body reply = true) (hpass : Passes W body reply) :
    Taken W tenant server group w := by
  obtain ⟨events, hevents, henc, hlen⟩ := batchBody_ok hbody
  cases reply with
  | lost => exact hpass.elim
  | incomplete => exact hpass.elim
  | response status ack delay =>
    rw [permits, if_pos ⟨hpass.1, isOk_checkAck hpass.2⟩] at hp
    cases ack with
    | none => cases hp
    | some ack =>
      simp only [Option.any_some, List.contains_iff_mem] at hp
      obtain ⟨raw, hraw, hlogged⟩ := hw.acked _ hp
      rw [(hW _ _ henc hlen).1, Except.ok.injEq] at hraw
      subst hraw
      intro x hx
      obtain ⟨ev, hev, hread⟩ := (spooledEvents_entries hevents).1 x hx
      exact ⟨ev, hread, hlogged ev hev⟩

/-- If nothing was torn, a batch is made of events that the agent drew. -/
theorem clean_batchBody (hW : W.RoundTrips) {group : List SpoolEntry} {body : List UInt8}
    (hbody : W.batchBody group = .ok body) {s : Spool World} (ht : s.queue.torn = [])
    (ha : Admitted (outside W tenant server) group s) :
    ∃ raw, decodeIngest W.parseBatch body = .ok raw ∧ ∀ ev ∈ raw.events, ev ∈ s.env.drawn := by
  obtain ⟨events, hevents, henc, hlen⟩ := batchBody_ok hbody
  refine ⟨_, (hW _ _ henc hlen).1, fun ev hev => ?_⟩
  obtain ⟨x, hx, hread⟩ := (spooledEvents_entries hevents).2 ev hev
  obtain ⟨y, hy, rfl⟩ := ha ht x hx
  obtain ⟨ev', hev', hread'⟩ := hy (spooledEvent_length hread)
  rw [hread, Except.ok.injEq] at hread'
  rwa [hread']

section Deliver

variable {F : Spool World → Prop} {group : List SpoolEntry} {body : List UInt8}

theorem transport_triple (hW : W.RoundTrips) (hbody : W.batchBody group = .ok body)
    (hF : (protocol U (outside W tenant server)).Stable t F) (hF' : ∀ s w, F s → F { s with env := w })
    (ha : ∀ s, (protocol U (outside W tenant server)).inv s → F s →
      Admitted (outside W tenant server) group s) (payloadType : String) :
    Triple (protocol U (outside W tenant server)) t F (transport W payloadType body)
      (fun reply s => (Passes W body reply → Taken W tenant server group s.env) ∧ F s)
      fun _ => F := by
  refine Triple.bind (Q := fun _ => F) (act_triple hF (fun _ => hF) (fun _ => hF) ?_ ?_) fun _ => ?_
  · intro a s c b s' hi hs _ hf
    split_ifs at hf
    cases hf
    exact ⟨.idle hi, hs⟩
  · intro a s c e s' _ _ _ hf
    split_ifs at hf
    cases hf
  refine Triple.bind (Q := fun _ => F) (Triple.modify hF hF (fun _ => hF) ?_) fun _ => ?_
  · intro s hi hs
    refine ⟨allows_env hi ⟨{ hi.env with own := ?_ }, fun _ _ => ⟨List.prefix_rfl, List.prefix_rfl,
      fun a h => ⟨a, h, rfl⟩⟩⟩ fun ht body' hbody' => ?_, hF' s _ hs⟩
    · intro batch policy now hc
      obtain ⟨body', hmem, hrest⟩ := hi.env.own batch policy now hc
      exact ⟨body', List.mem_append_left _ hmem, hrest⟩
    · rcases List.mem_append.1 hbody' with hbody' | hbody'
      · exact hi.clean ht body' hbody'
      · rw [List.mem_singleton.1 hbody']
        exact clean_batchBody hW hbody ht (ha s hi hs)
  · have htaken : ∀ reply, (protocol U (outside W tenant server)).Stable t fun s =>
        Passes W body reply → Taken W tenant server group s.env := fun reply =>
      stable_world (R := fun w => Passes W body reply → Taken W tenant server group w)
        fun w w' hs h hpass => (outside W tenant server).takenSees (t := t) hs (h hpass)
    refine Triple.act hF (fun reply => (htaken reply).and hF) (fun _ => hF) ?_ ?_
    · intro s c reply s' hi hs hf
      split_ifs at hf with hp
      cases hf
      exact ⟨.idle hi, fun hpass => taken_of_passes hW hbody hi.env hp hpass, hs⟩
    · intro s c e s' _ _ hf
      split_ifs at hf
      cases hf

theorem reauth_triple (hF : (protocol U (outside W tenant server)).Stable t F)
    (hF' : ∀ s w, F s → F { s with env := w }) :
    Triple (protocol U (outside W tenant server)) t F reauth (fun _ => F) fun _ => F := by
  refine Triple.act hF (fun _ => hF) (fun _ => hF) ?_ ?_
  · intro s c a s' hi hs hf
    split at hf
    · cases hf
    · rename_i key hkey
      split_ifs at hf
      cases hf
      obtain ⟨hw, hsees⟩ := WorldInv.setAgent (f := fun a => { a with apiKey := key }) hi.env
        (fun _ => rfl) fun _ h => h
      exact ⟨allows_world hi hw hsees id, hF' s _ hs⟩
  · intro s c e s' hi hs hf
    split at hf
    · cases hf
      exact ⟨.idle hi, hs⟩
    · split_ifs at hf
      cases hf

/-- `deliver` succeeds on a batch only when its reply passes. -/
theorem deliverLoop_triple (hW : W.RoundTrips) (hbody : W.batchBody group = .ok body)
    (hF : (protocol U (outside W tenant server)).Stable t F) (hF' : ∀ s w, F s → F { s with env := w })
    (ha : ∀ s, (protocol U (outside W tenant server)).inv s → F s →
      Admitted (outside W tenant server) group s) (left : ℕ) :
    Triple (protocol U (outside W tenant server)) t F
      (W.deliverLoop (transport W) (some reauth) "batch" body left)
      (fun _ s => F s ∧ Taken W tenant server group s.env) fun _ => F := by
  have hfail : ∀ {P : Spool World → Prop} {e : SpoolError}, (∀ s, P s → F s) →
      Triple (protocol U (outside W tenant server)) t P
        (.fail e : Prog (Spool World) (Choice AgentChoice) SpoolError Unit)
        (fun _ s => F s ∧ Taken W tenant server group s.env) fun _ => F :=
    fun h => Triple.fail hF fun s _ hs => h s hs
  induction left with
  | zero => exact hfail fun _ h => h
  | succ left ih =>
    unfold Wire.deliverLoop
    refine Triple.bind (transport_triple hW hbody hF hF' ha "batch") fun reply => ?_
    cases reply with
    | lost => exact hfail fun _ h => h.2
    | incomplete => exact hfail fun _ h => h.2
    | response status ack delay =>
      dsimp only
      by_cases hok : status = 202 ∨ status = 200
      · rw [if_pos hok, if_neg (by simp)]
        rcases hcheck : W.checkAck body ack with e | u
        · exact hfail fun _ h => h.2
        · exact Triple.ret (hF.and (stable_taken group)) fun s _ h => ⟨h.2, h.1 ⟨hok, hcheck⟩⟩
      · rw [if_neg hok]
        by_cases hauth : status = 401
        · rw [if_pos hauth]
          split
          · rename_i renew heq
            obtain rfl := Option.some.inj heq
            refine Triple.bind (((reauth_triple hF hF').attempt).conseq (fun _ _ h => h.2)
              (fun r s _ h => (by cases r <;> exact h : F s)) fun _ _ _ h => h) fun r => ?_
            cases r with
            | ok u => exact ih
            | error e => exact hfail fun _ h => h
          · exact hfail fun _ h => h.2
        · rw [if_neg hauth]
          split_ifs
          · exact hfail fun _ h => h.2
          · exact hfail fun _ h => h.2
          · exact hfail fun _ h => h.2

end Deliver

/-- A pass of the agent relies on what the queue asks of it. -/
theorem draining_sound (hW : W.RoundTrips) {group : List SpoolEntry → ℕ} {corrupt : SpoolError} :
    Draining.Sound ⟨ctxErr, group, W.deliverBatch (transport W) (some reauth), corrupt⟩ U
      (outside W tenant server) t where
  ctx F hF := by
    refine Triple.act hF (fun _ => hF) (fun _ => hF) ?_ ?_
    · intro s c a s' hi hs hf
      split_ifs at hf <;> cases hf
      exact ⟨.idle hi, hs⟩
    · intro s c e s' hi hs hf
      split_ifs at hf <;> cases hf
      exact ⟨.idle hi, hs⟩
  deliver F group hF hF' ha := by
    have hbody : Triple (protocol U (outside W tenant server)) t F
        (Prog.ofExcept (W.batchBody group) : SpoolM World AgentChoice (List UInt8))
        (fun body s => W.batchBody group = .ok body ∧ F s) fun _ => F := by
      rcases W.batchBody group with e | body
      · exact Triple.fail hF fun _ _ h => h
      · exact Triple.ret ((Protocol.Stable.const _).and hF) fun _ _ h => ⟨rfl, h⟩
    exact Triple.bind hbody fun body => Triple.assume fun hb =>
      deliverLoop_triple hW hb hF hF' ha 2

theorem drainTurn_triple (hW : W.RoundTrips) :
    Triple (protocol U (outside W tenant server)) t (Fresh t) (drainTurn W t) (fun _ _ => True)
      fun _ _ => True := by
  have hfresh : (protocol U (outside W tenant server)).Stable t (Fresh t) :=
    fun _ _ _ _ h hf => h.fresh hf
  refine Triple.bind (Q := fun _ => Fresh t) (act_triple hfresh (fun _ => hfresh) (fun _ => .const _)
    ?_ ?_) fun a => ?_
  · intro a s c b s' hi hs _ hf
    split_ifs at hf
    cases hf
    exact ⟨.idle hi, hs⟩
  · intro a s c e s' _ _ _ hf
    split_ifs at hf
    cases hf
  refine Triple.guard fun _ => ?_
  refine Triple.bind (Q := fun _ _ => True) (Triple.mapError ?_) fun _ =>
    Triple.ret (.const _) fun _ _ h => h
  refine Triple.guard fun _ => ?_
  exact (pass_triple (draining_sound hW)).conseq (fun _ _ h => h) (fun _ _ _ _ => trivial)
    fun _ _ _ h => h

theorem close_triple : Triple (protocol U (outside W tenant server)) t (fun _ => True) (close t)
    (fun _ _ => True) fun _ _ => True := by
  have htrue : Steady U W tenant server t fun _ => True := .const True
  refine Triple.bind (Q := fun _ _ => True) (locked_triple htrue (fun _ => htrue) (fun _ => htrue) ?_)
    fun a => ?_
  · refine Triple.bind ((theAgent_triple htrue.stable fun _ => htrue.stable).conseq (fun _ _ h => h)
      (fun _ _ _ h => h.2) fun _ _ _ h => h) fun a => ?_
    refine Triple.bind (Q := fun _ _ => True) (modifyAgent_triple ?_ ?_ htrue fun _ => htrue.stable)
      fun _ => Triple.ret htrue.stable fun _ _ h => h
    · exact fun _ => rfl
    · exact fun _ h => h
  · split_ifs
    · exact Triple.ret htrue.stable fun _ _ h => h
    · exact Triple.mapError Spool.close_triple

/-! ## Runs -/

/-- What a call promises on return. -/
def Promise (W : Wire) (call : AgentCall) (t : ℕ) (r : Except AgentError Unit) (s : Spool World) :
    Prop :=
  match call, r with
  | .insert row, .ok _ => Enqueued W row t s
  | _, _ => True

theorem serve_triple (hW : W.RoundTrips) (hE : W.KeepsEvents) (call : AgentCall) :
    Triple (protocol U (outside W tenant server)) t (Fresh t) (serve U W call t)
      (fun a => Promise W call t (.ok a)) fun e => Promise W call t (.error e) := by
  cases call with
  | start hubURL apiKey =>
    exact (start_triple hubURL apiKey).conseq (fun _ _ _ => trivial) (fun _ _ _ h => h)
      fun _ _ _ h => h
  | bindIdentity bindTenant bindServer =>
    exact (bindIdentity_triple bindTenant bindServer).conseq (fun _ _ _ => trivial)
      (fun _ _ _ h => h) fun _ _ _ h => h
  | insert row =>
    exact (enqueue_triple hE row).conseq (fun _ _ _ => trivial) (fun _ _ _ h => h) fun _ _ _ h => h
  | drainTurn => exact drainTurn_triple hW
  | close =>
    exact close_triple.conseq (fun _ _ _ => trivial) (fun _ _ _ h => h) fun _ _ _ h => h

theorem service_sound (hW : W.RoundTrips) (hE : W.KeepsEvents) :
    Pool.Sound (service U W tenant server) (protocol U (outside W tenant server)) Fresh
      (Promise W) where
  body call _ s hi hf := (serve_triple hW hE call).safe s hi hf
  env s x hi := by
    obtain ⟨hw, hsees, hclean⟩ := WorldInv.receive hi.env x
    exact ⟨hi.environment (t := 0) hw hsees fun ht => hclean (hi.clean ht), fun t =>
      { Sees.refl (outside W tenant server) t s with env := hsees }⟩
  restart s hi := by
    have hw : WorldInv W tenant server { s.env with agentMu := none, agent := none } :=
      { hi.env with booted := by simp }
    exact { hi.reopen with env := hw }
  freshSees _ _ _ h hf := h.fresh hf
  freshRestart _ _ hf := hf
  postSees call t r s s' h hp := by
    unfold Promise at hp ⊢
    split at hp
    · exact hp.sees h
    · trivial
  postRestart _ _ _ _ hp := hp

theorem reached_kept (hW : W.RoundTrips) (hE : W.KeepsEvents)
    (turns : List (Turn (Choice AgentChoice) AgentCall (Reception × IngestRequest))) :
    Pool.Kept (protocol U (outside W tenant server)) Fresh (Promise W)
      (reached U W tenant server turns) := by
  have hw : WorldInv W tenant server {} :=
    ⟨rfl, by simp [NoCleanup], by simp, by simp, by simp, by simp⟩
  have hc : Clean W {} := by simp [Clean]
  have hi : (protocol U (outside W tenant server)).inv { env := {} } := Inv.empty U hw hc
  exact Pool.sound (service_sound hW hE) hi (fun _ => ⟨rfl, rfl⟩) turns

end Agent

end WMonitor
