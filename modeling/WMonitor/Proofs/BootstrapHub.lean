import WMonitor.Bootstrap
import WMonitor.Proofs.Handshake

/-!
# What the Hub hands out to a machine

`handleEnroll` commits one `CompleteEnrollment` or nothing. An enrollment without proof takes no
credential away, and what it hands out is in a handshake; while nobody takes the credential of a server
away, the handshakes of a code for it hold the one token (`Orderly`, `Known`).
-/

namespace WMonitor

open Handler

/-! ## The Hub -/

theorem mem_putHandshake_self (h : Handshake) (db : CredentialDB) :
    h ∈ (db.putHandshake h).handshakes := by
  unfold CredentialDB.putHandshake
  split_ifs with hc
  · obtain ⟨h₀, hm, hkey⟩ := List.any_eq_true.1 hc
    exact Table.mem_update.2 ⟨h₀, hm, by rw [if_pos hkey]⟩
  · exact List.mem_append_right _ (List.mem_singleton_self h)

/-- What was audited goes on with the same credentials. -/
theorem Server.audited_run {o : Occasion} {n : ℕ} {ev : AuditEvent} {takeBack : ServerM Unit} {α : Type}
    {f : Unit → ServerM α} {s s' : Server} {answer : Except Refusal α}
    (hback : ∀ s, (takeBack s).1 = .ok ())
    (h : (Server.audited o n ev takeBack >>= f) s = (answer, s'))
    (haudit : answer ≠ .error ⟨503, "audit unavailable"⟩) :
    ∃ s₁, s₁.db.credentials = s.db.credentials ∧ f () s₁ = (answer, s') := by
  have hfailed : ∀ s₁, ((takeBack >>= fun _ => refuse ⟨503, "audit unavailable"⟩) >>= f) s₁
      ≠ (answer, s') := by
    intro s₁ h₁
    simp only [bind] at h₁
    rcases hb : takeBack s₁ with ⟨r, s₂⟩
    have hr := hback s₁
    rw [hb] at hr h₁
    dsimp only at hr
    subst hr
    cases h₁
    exact haudit rfl
  rw [Server.audited, run_bind_assoc, Server.recordAudit, run_call_bind] at h
  rcases hfault : o.audit with _ | _ | _ <;> rw [hfault] at h <;> dsimp only at h
  · rcases hev : ev.validate with e | u
    · simp only [Database.appendAudit, hev] at h
      exact absurd h (hfailed _)
    · simp only [Database.appendAudit, hev] at h
      refine ⟨_, ?_, h⟩
      rfl
  · exact absurd h (hfailed _)
  · exact absurd h (hfailed _)

/-- An enrollment that is answered otherwise than by a failed audit. -/
theorem Server.handleEnroll_run {K : KeyTexts} {o : Occasion} {insecure : Bool}
    {r : Request Server.EnrollBody} {s s' : Server} {answer : Except Refusal Issued}
    (h : Server.handleEnroll K o insecure r s = (answer, s'))
    (haudit : answer ≠ .error ⟨503, "audit unavailable"⟩) :
    (∃ e, answer = .error e ∧ e.status ≠ 201 ∧ s'.db.credentials = s.db.credentials)
      ∨ ∃ req token result, r.body = some req
        ∧ s.db.credentials.completeEnrollment (o.io 0) (Server.enrollmentRequest K req token)
          (unix (o.clock 0)) = (s'.db.credentials, .ok result)
        ∧ answer = .ok (.agent result.token result.tenantID (trimmed req.serverID)) := by
  have refused : ∀ {e : Refusal}, e.status ≠ 201 → (Except.error e, s) = (answer, s') →
      ∃ e, answer = .error e ∧ e.status ≠ 201 ∧ s'.db.credentials = s.db.credentials := by
    intro e hstatus he
    cases he
    exact ⟨e, rfl, hstatus, rfl⟩
  unfold Server.handleEnroll at h
  rw [run_refuseIf_bind] at h
  split_ifs at h with h₁
  · exact .inl (refused (by decide) h)
  rw [run_refuseIf_bind] at h
  split_ifs at h with h₂
  · exact .inl (refused (by decide) h)
  rw [run_refuseIf_bind] at h
  split_ifs at h with h₃
  · exact .inl (refused (by decide) h)
  rw [run_require_bind] at h
  rcases hbody : r.body with _ | req
  · rw [hbody] at h
    exact .inl (refused (by decide) h)
  rw [hbody] at h
  dsimp only at h
  rw [run_refuseIf_bind] at h
  split_ifs at h with h₄
  · exact .inl (refused (by decide) h)
  rw [run_refuseIf_bind] at h
  split_ifs at h with h₅
  · exact .inl (refused (by decide) h)
  rw [Server.needKeys, run_bind_assoc, run_read_bind, run_refuseIf_bind] at h
  split_ifs at h with h₆
  · exact .inl (refused (by decide) h)
  unfold Server.random at h
  rcases hrand : o.rand 0 with text | buf
  · simp only [hrand] at h
    exact .inl (refused (by decide) h)
  simp only [hrand] at h
  rw [run_pure_bind, Server.credentialCall, run_call_bind] at h
  rcases hresult : s.db.credentials.completeEnrollment (o.io 0)
      (Server.enrollmentRequest K req (generateToken kindAgent buf)) (unix (o.clock 0)) with ⟨db, e | result⟩
  · simp only [hresult] at h
    obtain ⟨rfl, -⟩ := Table.transact_error hresult
    exact .inl (refused (by cases e <;> simp [Server.enrollmentRefusal]) h)
  simp only [hresult] at h
  obtain ⟨s₁, hsame, hpure⟩ := Server.audited_run (fun s => by split_ifs <;> rfl) h haudit
  cases hpure
  exact .inr ⟨req, _, result, rfl, by rw [hresult, hsame], rfl⟩

namespace Site

section Hub

variable {K : KeyTexts} {codeHash server : String} {db : CredentialDB} {c : CredentialCall}

/-- The call leaves the active agent credentials of the server alone, and registers and issues only what
is new. -/
structure Admits (K : KeyTexts) (server : String) (db : CredentialDB) (c : CredentialCall) : Prop where
  fresh : FreshUpsert db c
  hashed : ∀ req, c.op = .completeEnrollment req → req.tokenHash = K.hashAPIKey req.token
  stays : ∀ k ∈ db.apiKeys, k.active = true → k.serverID = server →
    ∃ k' ∈ (db.step c).apiKeys, k'.keyHash = k.keyHash ∧ k'.active = true

theorem admits_of_admitted (h : admitted K server db c = true) : Admits K server db c := by
  unfold admitted at h
  rw [Bool.and_eq_true] at h
  obtain ⟨hop, hstays⟩ := h
  refine ⟨fun r hr k hk => ?_, fun req hreq => ?_, fun k hk ha hs => ?_⟩
  · rw [hr] at hop
    simpa using List.all_eq_true.1 hop k hk
  · rw [hreq] at hop
    simpa using hop
  · have hk' := List.all_eq_true.1 hstays k hk
    simp only [ha, hs, decide_true, Bool.and_true, Bool.not_true, Bool.false_or, List.any_eq_true,
      Bool.and_eq_true, decide_eq_true_eq] at hk'
    exact hk'

/-- An agent credential of the server, for ingestion and without end. -/
def HasAgent (tenant server hash : String) (db : CredentialDB) : Prop :=
  ∃ k ∈ db.apiKeys, k.keyHash = hash ∧ k.activeFor tenant server = true ∧ k.scope = scopeIngest
    ∧ k.expiresAt ≤ 0 ∧ k.maxUses ≤ 0

def HasCode (codeHash tenant : String) (db : CredentialDB) : Prop :=
  ∃ k ∈ db.apiKeys, k.keyHash = codeHash ∧ k.tenantID = tenant

/-- What the Hub keeps about the code and the server. -/
structure Orderly (K : KeyTexts) (codeHash server : String) (db : CredentialDB) : Prop where
  indexed : Indexed db
  live : ∀ k ∈ db.apiKeys, k.kind = kindAgent → k.serverID = server → k.revokedAt = 0
  one : ∀ h ∈ db.handshakes, ∀ h' ∈ db.handshakes, h.key = (codeHash, server) →
    h'.key = (codeHash, server) → h' = h
  good : ∀ h ∈ db.handshakes, h.key = (codeHash, server) →
    h.keyHash = K.hashAPIKey h.token ∧ HasAgent h.tenantID server h.keyHash db
      ∧ HasCode codeHash h.tenantID db

/-- The server has the credential of the token, and a handshake of the code would hand it out again. -/
structure Known (K : KeyTexts) (codeHash server : String) (db : CredentialDB) (g : Grant) : Prop where
  agent : HasAgent g.tenantID server (K.hashAPIKey g.token) db
  code : HasCode codeHash g.tenantID db
  handshakes : ∀ h ∈ db.handshakes, h.key = (codeHash, server) →
    h.token = g.token ∧ h.tenantID = g.tenantID

theorem Orderly.known (ho : Orderly K codeHash server db) {h : Handshake} (hm : h ∈ db.handshakes)
    (hkey : h.key = (codeHash, server)) :
    Known K codeHash server db ⟨h.token, h.tenantID, server⟩ := by
  obtain ⟨hhash, hagent, hcode⟩ := ho.good h hm hkey
  refine ⟨hhash ▸ hagent, hcode, fun h' hm' hkey' => ?_⟩
  rw [ho.one h hm h' hm' hkey hkey']
  exact ⟨rfl, rfl⟩

/-- The image of an active credential of the server is active. -/
theorem Admits.active (ha : Admits K server db c) (hI : Indexed db) {g : APIKey → APIKey}
    {counted : APIKey → Bool} {new : APIKey → Prop} (hg : Evolves g counted new db (db.step c))
    {k : APIKey} (hk : k ∈ db.apiKeys) (hact : k.active = true) (hs : k.serverID = server) :
    (g k).active = true := by
  obtain ⟨k', hk', hhash, hact'⟩ := ha.stays k hk hact hs
  have hsame : k' = g k := List.inj_on_of_nodup_map (hg.hashes hI.hashes) hk' (hg.mem hk)
    (hhash.trans (hg.later k).keyHash.symm)
  rwa [← hsame]

theorem HasAgent.step {tenant hash : String} (ha : Admits K server db c) (hI : Indexed db)
    (h : HasAgent tenant server hash db) : HasAgent tenant server hash (db.step c) := by
  obtain ⟨g, hg⟩ := step_evolves hI.hashes ha.fresh
  obtain ⟨k, hk, hhash, hfor, hscope, hexp, hmax⟩ := h
  obtain ⟨ht, hs, hact⟩ := activeFor_iff.1 hfor
  have hl := hg.later k
  refine ⟨g k, hg.mem hk, hl.keyHash.trans hhash, activeFor_iff.2 ⟨hl.tenantID.trans ht,
    hl.serverID.trans hs, ha.active hI hg hk hact hs⟩, ?_, ?_, ?_⟩
  · rw [hl.same]
    exact hscope
  · rw [hl.same]
    exact hexp
  · rw [hl.maxUses]
    exact hmax

theorem HasCode.step {tenant : String} (ha : Admits K server db c) (hI : Indexed db)
    (h : HasCode codeHash tenant db) : HasCode codeHash tenant (db.step c) := by
  obtain ⟨g, hg⟩ := step_evolves hI.hashes ha.fresh
  obtain ⟨k, hk, hhash, ht⟩ := h
  exact ⟨g k, hg.mem hk, (hg.later k).keyHash.trans hhash, (hg.later k).tenantID.trans ht⟩

theorem HasAgent.of_issues {req : EnrollmentRequest} {now : ℤ} {code : APIKey} {db' : CredentialDB}
    {r : EnrollmentResult} (hi : Issues req now code db db' r) :
    HasAgent code.tenantID req.serverID req.tokenHash db' := by
  refine ⟨{ req.row code now with id := db.lastID + 1 }, ?_, rfl, ?_, rfl, le_rfl, le_rfl⟩
  · rw [hi.keys]
    exact List.mem_append_right _ (List.mem_singleton_self _)
  · simp [APIKey.activeFor, APIKey.active, EnrollmentRequest.row]

/-- A row that was not there is not revoked. -/
theorem step_new_live {k : APIKey} (hk : k ∈ (db.step c).apiKeys) :
    (∃ k₀ ∈ db.apiKeys, k₀.keyHash = k.keyHash) ∨ k.revokedAt = 0 := by
  have mapped : ∀ (g : APIKey → APIKey), (∀ k : APIKey, (g k).keyHash = k.keyHash) →
      k ∈ db.apiKeys.map g → ∃ k₀ ∈ db.apiKeys, k₀.keyHash = k.keyHash := by
    intro g hg hk
    obtain ⟨k₀, hk₀, rfl⟩ := List.mem_map.1 hk
    exact ⟨k₀, hk₀, (hg k₀).symm⟩
  have revoked : ∀ (p : APIKey → Bool) (now : ℤ) (k : APIKey), (revokeRow p now k).keyHash = k.keyHash :=
    fun p now k => (revokeRow_later p now k).keyHash
  obtain ⟨op, now, io⟩ := c
  cases op with
  | upsertAPIKey r =>
    simp only [CredentialDB.step] at hk
    rcases upsertAPIKey_cases io r now db with ⟨e, he⟩ | ⟨db', he, -, ⟨-, hkeys⟩ | ⟨-, hkeys⟩⟩
    · rw [he] at hk
      exact .inl ⟨k, hk, rfl⟩
    · simp only [he, hkeys] at hk
      rcases List.mem_append.1 hk with hk | hk
      · exact .inl ⟨k, hk, rfl⟩
      · rw [List.mem_singleton.1 hk]
        exact .inr rfl
    · simp only [he, hkeys] at hk
      obtain ⟨k₀, hk₀, rfl⟩ := Table.mem_update.1 hk
      refine .inl ⟨k₀, hk₀, ?_⟩
      split_ifs with hh
      · exact of_decide_eq_true hh
      · rfl
  | completeEnrollment req =>
    simp only [CredentialDB.step] at hk
    rcases completeEnrollment_cases io req now db with
      ⟨e, he⟩ | ⟨h, code, -, -, he⟩ | ⟨-, code, db', r, he, hi⟩
    · rw [he] at hk
      exact .inl ⟨k, hk, rfl⟩
    · rw [he] at hk
      exact .inl ⟨k, hk, rfl⟩
    · simp only [he, hi.keys] at hk
      rcases List.mem_append.1 hk with hk | hk
      · rw [revokeWhere_apiKeys, countUse_apiKeys, List.map_map] at hk
        refine .inl (mapped _ (fun k => ?_) hk)
        exact (revoked _ _ _).trans (countRow_later req.codeHash now k).keyHash
      · rw [List.mem_singleton.1 hk]
        exact .inr rfl
  | replaceAgent tenant server token tokenHash pfx =>
    simp only [CredentialDB.step] at hk
    rcases replaceAgent_cases io tenant server token tokenHash pfx now db with
      ⟨e, he⟩ | ⟨db', r, name, he, -, -, hkeys, -, -⟩
    · rw [he] at hk
      exact .inl ⟨k, hk, rfl⟩
    · simp only [he, hkeys] at hk
      rcases List.mem_append.1 hk with hk | hk
      · exact .inl (mapped _ (revoked _ _) hk)
      · rw [List.mem_singleton.1 hk]
        exact .inr rfl
  | consumeEnrollCode code =>
    simp only [CredentialDB.step] at hk
    rcases consumeEnrollCode_cases io code now db with ⟨e, he⟩ | ⟨rec, he, -⟩
    · rw [he] at hk
      exact .inl ⟨k, hk, rfl⟩
    · rw [he] at hk
      exact .inl (mapped _ (fun k => (countRow_later code now k).keyHash) hk)
  | touchAPIKey keyHash =>
    simp only [CredentialDB.step] at hk
    rcases (touchAPIKey_cases io keyHash now db).1 with hkeys | hkeys
    · exact .inl ⟨k, hkeys ▸ hk, rfl⟩
    · rw [hkeys] at hk
      obtain ⟨k₀, hk₀, rfl⟩ := Table.mem_update.1 hk
      refine .inl ⟨k₀, hk₀, ?_⟩
      split_ifs <;> rfl
  | revokeAPIKey clientName =>
    simp only [CredentialDB.step, CredentialDB.revokeAPIKey] at hk
    rcases (revoke_cases io (·.clientName = clientName) now db).2 with hkeys | hkeys
    · exact .inl ⟨k, hkeys ▸ hk, rfl⟩
    · rw [hkeys] at hk
      exact .inl (mapped _ (revoked _ _) hk)
  | revokeKeyHash keyHash =>
    simp only [CredentialDB.step] at hk
    rcases (revokeKeyHash_cases io keyHash now db).2 with hkeys | hkeys
    · exact .inl ⟨k, hkeys ▸ hk, rfl⟩
    · rw [hkeys] at hk
      exact .inl (mapped _ (revoked _ _) hk)
  | revokeAgent tenant server =>
    simp only [CredentialDB.step, CredentialDB.revokeAgent] at hk
    rcases (revoke_cases io
      (fun k => k.tenantID = tenant && k.serverID = server && k.kind = kindAgent) now db).2 with
      hkeys | hkeys
    · exact .inl ⟨k, hkeys ▸ hk, rfl⟩
    · rw [hkeys] at hk
      exact .inl (mapped _ (revoked _ _) hk)

theorem Orderly.step (ho : Orderly K codeHash server db) (ha : Admits K server db c) :
    Orderly K codeHash server (db.step c) := by
  obtain ⟨g, hg⟩ := step_evolves ho.indexed.hashes ha.fresh
  refine ⟨hg.indexed ho.indexed, fun k hk hkind hs => ?_, fun h hm h' hm' hkey hkey' => ?_,
    fun h hm hkey => ?_⟩
  · rcases step_new_live hk with ⟨k₀, hk₀, hhash⟩ | hzero
    · have hl := hg.later k₀
      obtain rfl : k = g k₀ := List.inj_on_of_nodup_map (hg.hashes ho.indexed.hashes) hk (hg.mem hk₀)
        (hhash.symm.trans hl.keyHash.symm)
      have hact : k₀.active = true := by
        simp only [APIKey.active, Bool.and_eq_true, decide_eq_true_eq]
        exact ⟨hl.kind.symm.trans hkind, ho.live k₀ hk₀ (hl.kind.symm.trans hkind)
          (hl.serverID.symm.trans hs)⟩
      have hact' := ha.active ho.indexed hg hk₀ hact (hl.serverID.symm.trans hs)
      simp only [APIKey.active, Bool.and_eq_true, decide_eq_true_eq] at hact'
      exact hact'.2
    · exact hzero
  · -- A handshake that is new has replaced the one with its key.
    rcases step_handshakes hm with hold | ⟨req, code, r, -, hi, rfl⟩
    · rcases step_handshakes hm' with hold' | ⟨req, code, r, -, hi, rfl⟩
      · exact ho.one h hold h' hold' hkey hkey'
      · rw [hi.handshakes] at hm
        rcases mem_putHandshake hm with rfl | ⟨-, hne⟩
        · rfl
        · exact absurd (hkey.trans hkey'.symm) hne
    · rw [hi.handshakes] at hm'
      rcases mem_putHandshake hm' with rfl | ⟨-, hne⟩
      · rfl
      · exact absurd (hkey'.trans hkey.symm) hne
  · rcases step_handshakes hm with hold | ⟨req, code, r, hop, hi, rfl⟩
    · obtain ⟨hhash, hagent, hcode⟩ := ho.good h hold hkey
      exact ⟨hhash, hagent.step ha ho.indexed, hcode.step ha ho.indexed⟩
    · simp only [Handshake.key, EnrollmentRequest.handshake, Prod.mk.injEq] at hkey
      obtain ⟨rfl, rfl⟩ := hkey
      exact ⟨ha.hashed req hop, .of_issues hi,
        HasCode.step ha ho.indexed ⟨code, hi.code_mem, hi.code_hash, rfl⟩⟩

theorem Known.step {gr : Grant} (ho : Orderly K codeHash server db) (ha : Admits K server db c)
    (hk : Known K codeHash server db gr) : Known K codeHash server (db.step c) gr := by
  refine ⟨hk.agent.step ha ho.indexed, hk.code.step ha ho.indexed, fun h hm hkey => ?_⟩
  rcases step_handshakes hm with hold | ⟨req, code, r, hop, hi, rfl⟩
  · exact hk.handshakes h hold hkey
  · -- The credential of the server is still active, and would clash with a new one.
    exfalso
    simp only [Handshake.key, EnrollmentRequest.handshake, Prod.mk.injEq] at hkey
    obtain ⟨rfl, rfl⟩ := hkey
    obtain ⟨code', hcode', hhash', htenant'⟩ := hk.code
    obtain rfl : code' = code := List.inj_on_of_nodup_map ho.indexed.hashes hcode' hi.code_mem
      (hhash'.trans hi.code_hash.symm)
    obtain ⟨k, hkm, -, hfor, -⟩ := hk.agent
    obtain ⟨ht, hs, hact⟩ := activeFor_iff.1 hfor
    obtain ⟨k', hk', hsame, hact'⟩ := ha.stays k hkm hact hs
    have hl := (countRow_later req.codeHash c.now k).trans
      (revokeRow_later (APIKey.activeFor code'.tenantID req.serverID) c.now _)
    have hmem : revokeRow (APIKey.activeFor code'.tenantID req.serverID) c.now
        (countRow req.codeHash c.now k) ∈ ((db.countUse req.codeHash c.now).revokeWhere
          (APIKey.activeFor code'.tenantID req.serverID) c.now).apiKeys := by
      rw [revokeWhere_apiKeys, countUse_apiKeys]
      exact List.mem_map_of_mem (List.mem_map_of_mem hkm)
    have hnodup := step_hashes (c := c) ho.indexed.hashes
    have heq := List.inj_on_of_nodup_map hnodup hk'
      (by rw [hi.keys]; exact List.mem_append_left _ hmem) (hsame.trans hl.keyHash.symm)
    have hclash := clash_active (hi.fresh _ hmem) rfl hi.named
    rw [← heq] at hclash
    have hfor' : k'.activeFor code'.tenantID req.serverID = true := by
      rw [activeFor_iff, heq, hl.tenantID, hl.serverID, ← heq]
      exact ⟨ht.trans htenant'.symm, hs, hact'⟩
    exact Bool.false_ne_true (hclash.symm.trans hfor')

/-- An enrollment without proof takes nothing away. -/
theorem admits_enrollment {req : EnrollmentRequest} (hhash : req.tokenHash = K.hashAPIKey req.token)
    (hproof : req.currentTokenHash = "") (hoperator : req.operatorApproved = false) (now : ℤ)
    (io : Driver) (db : CredentialDB) :
    Admits K server db ⟨.completeEnrollment req, now, io⟩ := by
  refine ⟨fun r hr => (CredentialOp.noConfusion hr), fun req' hreq' => ?_, fun k hk hact hs => ?_⟩
  · cases hreq'
    exact hhash
  · simp only [CredentialDB.step]
    rcases completeEnrollment_cases io req now db with
      ⟨e, he⟩ | ⟨h, code, -, -, he⟩ | ⟨-, code, db', r, he, hi⟩
    · exact ⟨k, by rw [he]; exact hk, rfl, hact⟩
    · exact ⟨k, by rw [he]; exact hk, rfl, hact⟩
    · have hnone : db.activeAgentHashes code.tenantID req.serverID = [] := by
        rcases hi.allowed with hnone | hallowed
        · exact hnone
        · simp [replacementAllowed, hoperator, hproof] at hallowed
      refine ⟨countRow req.codeHash now k, ?_, (countRow_later req.codeHash now k).keyHash, ?_⟩
      · rw [he]
        simp only [hi.keys, revokeWhere_of_none (activeFor_countUse hnone), countUse_apiKeys]
        exact List.mem_append_left _ (List.mem_map_of_mem hk)
      · unfold countRow
        split_ifs <;> exact hact

/-- What an enrollment hands out is in a handshake. -/
theorem enrolled {req : EnrollmentRequest} {now : ℤ} {io : Driver} {db' : CredentialDB}
    {r : EnrollmentResult} (h : db.completeEnrollment io req now = (db', .ok r)) :
    ∃ hs ∈ db'.handshakes, hs.key = (req.codeHash, req.serverID) ∧ hs.token = r.token
      ∧ hs.tenantID = r.tenantID := by
  rcases completeEnrollment_cases io req now db with
    ⟨e, he⟩ | ⟨hs, code, -, hrec, he⟩ | ⟨-, code, db₁, r₁, he, hi⟩
  · rw [h] at he
    cases he
  · rw [h] at he
    cases he
    obtain ⟨hm, hc, hserver, -⟩ := recoverable_some hrec
    exact ⟨hs, hm, Prod.ext hc hserver, rfl, rfl⟩
  · rw [h] at he
    cases he
    refine ⟨req.handshake code now, ?_, rfl, ?_, ?_⟩
    · rw [hi.handshakes]
      exact mem_putHandshake_self _ _
    · rw [hi.result]
      rfl
    · rw [hi.result]
      rfl

end Hub

end Site

end WMonitor
