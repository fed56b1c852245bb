import WMonitor.Proofs.Credentials

/-!
# Handshakes

`CompleteEnrollment` hands out the token of an unexpired handshake again without looking at the
credential behind it. Revocations and rotations do not touch the handshakes, so what it hands out
may be dead: it is good exactly when the handshake still stands (`enrollment_good_iff`).

What a code cannot do is reach a credential in use: a handshake of the active agent is gone or
expired by then, and any other of the same server is of a revoked credential
(`enrollment_code_alone`).
-/

namespace WMonitor

/-! ## Steps -/

/-- A handshake after a call was there before, or is of the credential the call issued. -/
theorem step_handshakes {db : CredentialDB} {c : CredentialCall} {h : Handshake}
    (hm : h ∈ (db.step c).handshakes) :
    h ∈ db.handshakes ∨ ∃ req code r, c.op = .completeEnrollment req
      ∧ Issues req c.now code db (db.step c) r ∧ h = req.handshake code c.now := by
  obtain ⟨op, now, io⟩ := c
  cases op with
  | upsertAPIKey r =>
    simp only [CredentialDB.step] at hm
    rcases upsertAPIKey_cases io r now db with ⟨e, he⟩ | ⟨db', he, hh, -⟩
    · exact .inl (by simpa [he] using hm)
    · exact .inl (by simpa [he, hh] using hm)
  | completeEnrollment req =>
    simp only [CredentialDB.step] at hm ⊢
    rcases completeEnrollment_cases io req now db with
      ⟨e, he⟩ | ⟨hs, code, -, -, he⟩ | ⟨-, code, db', r, he, hi⟩
    · exact .inl (by simpa [he] using hm)
    · exact .inl (by simpa [he] using hm)
    · rw [he] at hm ⊢
      rw [hi.handshakes] at hm
      rcases mem_putHandshake hm with rfl | ⟨hm, -⟩
      · exact .inr ⟨req, code, r, rfl, hi, rfl⟩
      · exact .inl hm
  | replaceAgent tenant server token tokenHash pfx =>
    simp only [CredentialDB.step] at hm
    rcases replaceAgent_cases io tenant server token tokenHash pfx now db with
      ⟨e, he⟩ | ⟨db', r, name, he, -, -, -, hh, -⟩
    · exact .inl (by simpa [he] using hm)
    · exact .inl (by simpa [he, hh] using hm)
  | consumeEnrollCode codeHash =>
    simp only [CredentialDB.step] at hm
    rcases consumeEnrollCode_cases io codeHash now db with ⟨e, he⟩ | ⟨rec, he, -⟩
    · exact .inl (by simpa [he] using hm)
    · rw [he] at hm
      exact .inl hm
  | touchAPIKey keyHash =>
    simp only [CredentialDB.step] at hm
    rcases (touchAPIKey_cases io keyHash now db).2 with ⟨hh, -⟩ | hh
    · exact .inl (hh ▸ hm)
    · rw [hh] at hm
      exact .inl (Table.mem_delete.1 hm).1
  | revokeAPIKey clientName => exact .inl ((revoke_cases io _ now db).1 ▸ hm)
  | revokeKeyHash keyHash => exact .inl ((revokeKeyHash_cases io _ now db).1 ▸ hm)
  | revokeAgent tenant server => exact .inl ((revoke_cases io _ now db).1 ▸ hm)

/-- The rows the call would revoke. -/
def CredentialCall.revokes (c : CredentialCall) (db : CredentialDB) (k : APIKey) : Bool :=
  match c.op with
  | .completeEnrollment req =>
    match db.recoverable req.codeHash req.serverID c.now, db.enrollCode req.codeHash with
    | none, some code => k.activeFor code.tenantID req.serverID
    | _, _ => false
  | .replaceAgent tenant server _ _ _ => k.activeFor tenant server
  | .revokeAPIKey clientName => k.clientName = clientName
  | .revokeKeyHash keyHash => k.keyHash = keyHash
  | .revokeAgent tenant server =>
    k.tenantID = tenant && k.serverID = server && k.kind = kindAgent
  | _ => false

theorem revokeRow_of_false {p : APIKey → Bool} {now : ℤ} {k : APIKey} (h : p k = false) :
    revokeRow p now k = k := by
  simp [revokeRow, h]

theorem countRow_revokedAt (codeHash : String) (now : ℤ) (k : APIKey) :
    (countRow codeHash now k).revokedAt = k.revokedAt := by
  unfold countRow
  split_ifs <;> rfl

theorem countRow_activeFor (codeHash tenant server : String) (now : ℤ) (k : APIKey) :
    (countRow codeHash now k).activeFor tenant server = k.activeFor tenant server := by
  unfold countRow
  split_ifs <;> rfl

/-- The row `k` is still in `db'`, unrevoked unless the call revokes it, and with its identity
unless the call registers it anew. -/
def CredentialCall.Keeps (c : CredentialCall) (db : CredentialDB) (k : APIKey)
    (db' : CredentialDB) : Prop :=
  ∃ k' ∈ db'.apiKeys, k'.keyHash = k.keyHash
    ∧ (c.revokes db k = false → k'.revokedAt = k.revokedAt)
    ∧ ((∀ r, c.op = .upsertAPIKey r → r.keyHash ≠ k.keyHash) → k.Later k')

theorem step_row {db : CredentialDB} {c : CredentialCall} {k : APIKey} (hk : k ∈ db.apiKeys) :
    c.Keeps db k (db.step c) := by
  have same : ∀ db' : CredentialDB, db'.apiKeys = db.apiKeys → c.Keeps db k db' :=
    fun db' he => ⟨k, he ▸ hk, rfl, fun _ => rfl, fun _ => .refl k⟩
  have revoked : ∀ (db' : CredentialDB) (p : APIKey → Bool), c.revokes db k = p k →
      db'.apiKeys = (db.revokeWhere p c.now).apiKeys → c.Keeps db k db' := by
    intro db' p hp he
    have hl := revokeRow_later p c.now k
    refine ⟨revokeRow p c.now k, ?_, hl.keyHash, fun hr => ?_, fun _ => hl⟩
    · rw [he]
      exact List.mem_map_of_mem hk
    · rw [revokeRow_of_false (hp ▸ hr)]
  obtain ⟨op, now, io⟩ := c
  cases op with
  | upsertAPIKey r =>
    simp only [CredentialDB.step]
    rcases upsertAPIKey_cases io r now db with ⟨e, he⟩ | ⟨db', he, -, ⟨-, hkeys⟩ | ⟨-, hkeys⟩⟩
    · exact same _ (by rw [he])
    · rw [he]
      refine ⟨k, ?_, rfl, fun _ => rfl, fun _ => .refl k⟩
      simp only [hkeys]
      exact List.mem_append_left _ hk
    · rw [he]
      refine ⟨if (decide (k.keyHash = r.keyHash)) = true then r.overwrite now k else k, ?_, ?_, ?_,
        ?_⟩
      · simp only [hkeys]
        exact List.mem_map_of_mem hk
      · split_ifs with hh
        · exact (of_decide_eq_true hh).symm
        · rfl
      · intro _
        split_ifs <;> rfl
      · intro hr
        rw [if_neg (by simpa using (hr r rfl).symm)]
        exact .refl k
  | completeEnrollment req =>
    simp only [CredentialDB.step]
    rcases completeEnrollment_cases io req now db with
      ⟨e, he⟩ | ⟨hs, code, -, -, he⟩ | ⟨hrec, code, db', r, he, hi⟩
    · exact same _ (by rw [he])
    · exact same _ (by rw [he])
    · rw [he]
      have hl := (countRow_later req.codeHash now k).trans
        (revokeRow_later (APIKey.activeFor code.tenantID req.serverID) now _)
      refine ⟨_, ?_, hl.keyHash, fun hr => ?_, fun _ => hl⟩
      · simp only [hi.keys]
        exact List.mem_append_left _ (List.mem_map_of_mem (List.mem_map_of_mem hk))
      · simp only [CredentialCall.revokes, hrec, hi.found] at hr
        rw [revokeRow_of_false (by rw [countRow_activeFor, hr]), countRow_revokedAt]
  | replaceAgent tenant server token tokenHash pfx =>
    simp only [CredentialDB.step]
    rcases replaceAgent_cases io tenant server token tokenHash pfx now db with
      ⟨e, he⟩ | ⟨db', r, name, he, -, -, hkeys, -⟩
    · exact same _ (by rw [he])
    · rw [he]
      obtain ⟨k', hk', h⟩ := revoked (db.revokeWhere (APIKey.activeFor tenant server) now) _ rfl rfl
      exact ⟨k', by simp only [hkeys]; exact List.mem_append_left _ hk', h⟩
  | consumeEnrollCode codeHash =>
    simp only [CredentialDB.step]
    rcases consumeEnrollCode_cases io codeHash now db with ⟨e, he⟩ | ⟨rec, he, -⟩
    · exact same _ (by rw [he])
    · rw [he]
      have hl := countRow_later codeHash now k
      exact ⟨_, List.mem_map_of_mem hk, hl.keyHash, fun _ => countRow_revokedAt codeHash now k,
        fun _ => hl⟩
  | touchAPIKey keyHash =>
    simp only [CredentialDB.step]
    rcases (touchAPIKey_cases io keyHash now db).1 with he | he
    · exact same _ he
    · unfold CredentialCall.Keeps
      rw [he]
      refine ⟨_, List.mem_map_of_mem hk, ?_, fun _ => ?_, fun _ => ?_⟩
      · split_ifs <;> rfl
      · split_ifs <;> rfl
      · split_ifs
        · exact ⟨rfl, fun _ => rfl⟩
        · exact .refl k
  | revokeAPIKey clientName =>
    rcases (revoke_cases io (·.clientName = clientName) now db).2 with he | he
    · exact same _ he
    · exact revoked _ _ rfl he
  | revokeKeyHash keyHash =>
    rcases (revokeKeyHash_cases io keyHash now db).2 with he | he
    · exact same _ he
    · exact revoked _ _ rfl he
  | revokeAgent tenant server =>
    rcases (revoke_cases io
      (fun k => k.tenantID = tenant && k.serverID = server && k.kind = kindAgent) now db).2 with
      he | he
    · exact same _ he
    · exact revoked _ _ rfl he

theorem step_hashes {db : CredentialDB} {c : CredentialCall}
    (hn : (db.apiKeys.map (·.keyHash)).Nodup) : ((db.step c).apiKeys.map (·.keyHash)).Nodup := by
  by_cases hf : FreshUpsert db c
  · obtain ⟨g, hg⟩ := step_evolves hn hf
    exact hg.hashes hn
  · simp only [FreshUpsert, not_forall, not_not] at hf
    obtain ⟨r, hop, k, hk, hh⟩ := hf
    obtain ⟨op, now, io⟩ := c
    obtain rfl : op = .upsertAPIKey r := hop
    simp only [CredentialDB.step]
    rcases upsertAPIKey_cases io r now db with ⟨e, he⟩ | ⟨db', he, -, ⟨hc, -⟩ | ⟨-, hkeys⟩⟩
    · rw [he]
      exact hn
    · exact absurd hh (clash_hash (hc k hk))
    · rw [he]
      simp only [hkeys]
      rw [Table.map_update (fun x hx => ?_)]
      · exact hn
      · exact (of_decide_eq_true hx).symm

theorem credentials_hashes (calls : List CredentialCall) :
    ((credentials calls).apiKeys.map (·.keyHash)).Nodup := by
  induction calls using List.reverseRecOn with
  | nil => exact List.nodup_nil
  | append_singleton calls c ih =>
    rw [credentials_append]
    exact step_hashes ih

/-! ## What an enrollment returns -/

/-- `ResolveAPIKey` accepts the row at `now`. -/
def APIKey.resolvable (k : APIKey) (now : ℤ) : Prop :=
  k.kind ≠ kindEnroll ∧ k.revokedAt = 0 ∧ (k.expiresAt ≤ 0 ∨ now < k.expiresAt)
    ∧ (k.maxUses ≤ 0 ∨ k.uses < k.maxUses)

theorem resolveAPIKey_lookup {io : Driver} {keyHash : String} {now : ℤ} {db : CredentialDB}
    {rec : APIKeyRecord} (h : db.resolveAPIKey io keyHash now = .ok rec) :
    ∃ k, Table.lookup (·.keyHash) keyHash db.apiKeys = some k ∧ k.resolvable now
      ∧ rec = scanAPIKey k := by
  unfold CredentialDB.resolveAPIKey at h
  obtain ⟨_, -, h⟩ := Table.ok_of_bind h
  split at h
  · cases h
  · rename_i k hk
    obtain ⟨h1, h⟩ := Table.ok_of_guard h
    obtain ⟨h2, h⟩ := Table.ok_of_guard h
    obtain ⟨h3, h⟩ := Table.ok_of_guard h
    obtain ⟨h4, h⟩ := Table.ok_of_guard h
    refine ⟨k, hk, ⟨h1, not_not.1 h2, ?_, ?_⟩, (Except.ok.inj h).symm⟩
    · simp only [Bool.and_eq_true, decide_eq_true_eq, not_and_or] at h3
      omega
    · simp only [Bool.and_eq_true, decide_eq_true_eq, not_and_or] at h4
      omega

theorem resolveAPIKey_ok {io : Driver} {keyHash : String} {now : ℤ} {db : CredentialDB}
    {rec : APIKeyRecord} (h : db.resolveAPIKey io keyHash now = .ok rec) :
    ∃ k ∈ db.apiKeys, k.keyHash = keyHash ∧ k.resolvable now := by
  obtain ⟨k, hk, hr, -⟩ := resolveAPIKey_lookup h
  exact ⟨k, (Table.lookup_mem hk).1, (Table.lookup_mem hk).2, hr⟩

theorem resolveAPIKey_of_resolvable {k : APIKey} {now : ℤ} {db : CredentialDB}
    (hn : (db.apiKeys.map (·.keyHash)).Nodup) (hk : k ∈ db.apiKeys) (hr : k.resolvable now) :
    db.resolveAPIKey (fun _ => none) k.keyHash now = .ok (scanAPIKey k) := by
  obtain ⟨h1, h2, h3, h4⟩ := hr
  unfold CredentialDB.resolveAPIKey
  have h3' : ¬ ((decide (k.expiresAt > 0) && decide (now ≥ k.expiresAt)) = true) := by
    simp only [Bool.and_eq_true, decide_eq_true_eq]
    omega
  have h4' : ¬ ((decide (k.maxUses > 0) && decide (k.uses ≥ k.maxUses)) = true) := by
    simp only [Bool.and_eq_true, decide_eq_true_eq]
    omega
  simp only [(Table.lookup_eq_some hn).2 ⟨hk, rfl⟩, Driver.exec, if_neg h1, h2, ne_eq,
    not_true_eq_false, if_false, if_neg h3', if_neg h4']
  rfl

/-- What an enrollment promises: the code is not revoked, and the token is of an active credential
of the tenant and the server it names, which `ResolveAPIKey` accepts. -/
structure Good (req : EnrollmentRequest) (now : ℤ) (r : EnrollmentResult) (db : CredentialDB) :
    Prop where
  code : ∃ k ∈ db.apiKeys, k.keyHash = req.codeHash ∧ k.revokedAt = 0
  agent : ∃ k ∈ db.apiKeys, k.keyHash = r.tokenHash ∧ k.activeFor r.tenantID r.serverID = true
  resolves : ∃ rec, db.resolveAPIKey (fun _ => none) r.tokenHash now = .ok rec

/-- The code of the handshake is not revoked, and its credential is active and accepted. -/
def Stands (now : ℤ) (db : CredentialDB) (h : Handshake) : Prop :=
  (∃ k ∈ db.apiKeys, k.keyHash = h.codeHash ∧ k.revokedAt = 0)
    ∧ ∃ k ∈ db.apiKeys, k.keyHash = h.keyHash ∧ k.activeFor h.tenantID h.serverID = true
      ∧ k.resolvable now

theorem recoverable_some {codeHash serverID : String} {now : ℤ} {db : CredentialDB}
    {h : Handshake} {code : APIKey} (hr : db.recoverable codeHash serverID now = some (h, code)) :
    h ∈ db.handshakes ∧ h.codeHash = codeHash ∧ h.serverID = serverID ∧ now < h.expiresAt
      ∧ code ∈ db.apiKeys ∧ code.keyHash = codeHash := by
  unfold CredentialDB.recoverable at hr
  split at hr
  · cases hr
  · rename_i h' hf
    obtain ⟨k, hk, he⟩ := Option.map_eq_some_iff.1 hr
    simp only [Prod.mk.injEq] at he
    obtain ⟨rfl, rfl⟩ := he
    have hp := List.find?_some hf
    simp only [Bool.and_eq_true, decide_eq_true_eq, Handshake.key, Prod.mk.injEq] at hp
    obtain ⟨⟨hc, hs⟩, hx⟩ := hp
    obtain ⟨hkm, hkh⟩ := Table.lookup_mem hk
    exact ⟨List.mem_of_find?_eq_some hf, hc, hs, hx, hkm, hkh.trans hc⟩

theorem activeFor_resolvable {k : APIKey} {tenant server : String} {now : ℤ}
    (ha : k.activeFor tenant server = true) (he : k.expiresAt ≤ 0) (hm : k.maxUses ≤ 0) :
    k.resolvable now := by
  obtain ⟨-, -, ha⟩ := activeFor_iff.1 ha
  simp only [APIKey.active, Bool.and_eq_true, decide_eq_true_eq] at ha
  refine ⟨?_, ha.2, .inl he, .inl hm⟩
  rw [ha.1]
  decide

/-- The code and the credential of an enrollment that issued one are as they should be. -/
theorem Issues.rows {req : EnrollmentRequest} {now : ℤ} {code : APIKey} {db db' : CredentialDB}
    {r : EnrollmentResult} (hi : Issues req now code db db' r) :
    (∃ k ∈ db'.apiKeys, k.keyHash = req.codeHash ∧ k.revokedAt = 0)
      ∧ ∃ k ∈ db'.apiKeys, k.keyHash = req.tokenHash
        ∧ k.activeFor code.tenantID req.serverID = true ∧ k.expiresAt ≤ 0 ∧ k.maxUses ≤ 0 := by
  have hnot : code.activeFor code.tenantID req.serverID = false := by
    simp [APIKey.activeFor, APIKey.active, hi.code_kind, kindEnroll, kindAgent]
  rw [hi.keys]
  refine ⟨⟨_, List.mem_append_left _ (List.mem_map_of_mem (List.mem_map_of_mem hi.code_mem)),
    ?_, ?_⟩, _, List.mem_append_right _ (List.mem_singleton_self _), rfl, ?_, ?_, ?_⟩
  · exact ((countRow_later req.codeHash now code).trans
      (revokeRow_later (APIKey.activeFor code.tenantID req.serverID) now _)).keyHash.trans
      hi.code_hash
  · have : revokeRow (APIKey.activeFor code.tenantID req.serverID) now
        (countRow req.codeHash now code) = countRow req.codeHash now code :=
      revokeRow_of_false (by rw [countRow_activeFor, hnot])
    exact (congrArg APIKey.revokedAt this).trans
      ((countRow_revokedAt req.codeHash now code).trans hi.code_live)
  · simp [APIKey.activeFor, APIKey.active, EnrollmentRequest.row]
  · exact le_refl _
  · exact le_refl _

/-- The handshakes that have not expired are of unrevoked codes and active credentials. -/
def Live (now : ℤ) (db : CredentialDB) : Prop :=
  ∀ h ∈ db.handshakes, now < h.expiresAt →
    (∃ k ∈ db.apiKeys, k.keyHash = h.codeHash ∧ k.revokedAt = 0)
      ∧ ∃ k ∈ db.apiKeys, k.keyHash = h.keyHash ∧ k.activeFor h.tenantID h.serverID = true
        ∧ k.expiresAt ≤ 0 ∧ k.maxUses ≤ 0

/-- The call neither revokes the code or the credential of a handshake that has not expired, nor
registers the credential anew. -/
def Spares (db : CredentialDB) (c : CredentialCall) : Prop :=
  ∀ h ∈ db.handshakes, c.now < h.expiresAt →
    (∀ k ∈ db.apiKeys, k.keyHash = h.codeHash ∨ k.keyHash = h.keyHash → c.revokes db k = false)
      ∧ ∀ r, c.op = .upsertAPIKey r → r.keyHash ≠ h.keyHash

theorem Live.later {now now' : ℤ} {db : CredentialDB} (h : Live now db) (hn : now ≤ now') :
    Live now' db :=
  fun hs hm hx => h hs hm (lt_of_le_of_lt hn hx)

theorem live_step {db : CredentialDB} {c : CredentialCall} (hs : Spares db c)
    (hl : Live c.now db) : Live c.now (db.step c) := by
  intro h hm hx
  rcases step_handshakes hm with hm | ⟨req, code, r, -, hi, rfl⟩
  · obtain ⟨⟨k, hk, hkh, hkr⟩, k', hk', hkh', ha', he', hu'⟩ := hl h hm hx
    obtain ⟨hrev, hup⟩ := hs h hm hx
    refine ⟨?_, ?_⟩
    · obtain ⟨x, hxm, hxh, hxr, -⟩ := step_row (c := c) hk
      exact ⟨x, hxm, hxh.trans hkh, (hxr (hrev k hk (.inl hkh))).trans hkr⟩
    · obtain ⟨x, hxm, hxh, hxr, hxl⟩ := step_row (c := c) hk'
      have hlater := hxl fun r hr => hkh' ▸ hup r hr
      have hrevoked := hxr (hrev k' hk' (.inr hkh'))
      refine ⟨x, hxm, hxh.trans hkh', ?_, ?_, ?_⟩
      · rw [activeFor_iff] at ha' ⊢
        refine ⟨hlater.tenantID.trans ha'.1, hlater.serverID.trans ha'.2.1, ?_⟩
        rw [← ha'.2.2, APIKey.active, APIKey.active, hlater.kind, hrevoked]
      · rw [hlater.same]
        exact he'
      · rw [hlater.maxUses]
        exact hu'
  · exact hi.rows

theorem live_run (now : ℤ) : ∀ (calls : List CredentialCall) (db : CredentialDB),
    (calls.map (·.now) ++ [now]).Pairwise (· ≤ ·) → Run.Along CredentialDB.step Spares db calls →
    (∀ c ∈ calls, Live c.now db) → Live now db → Live now (Run.run CredentialDB.step db calls)
  | [], _, _, _, _, hl => hl
  | c :: calls, db, ht, hs, hc, _ => by
    simp only [List.map_cons, List.cons_append, List.pairwise_cons] at ht
    have hstep := live_step hs.1 (hc c List.mem_cons_self)
    refine live_run now calls _ ht.2 hs.2 (fun c' hc' => hstep.later (ht.1 _ ?_))
      (hstep.later (ht.1 _ ?_))
    · exact List.mem_append_left _ (List.mem_map_of_mem hc')
    · exact List.mem_append_right _ (List.mem_singleton_self _)

/-- An enrollment that succeeds returns what it promises exactly when the handshake it recovers, if
it recovers one, still stands; so it always does in a run whose calls spare the handshakes that
have not expired. -/
theorem enrollment_good_iff (calls : List CredentialCall) (io : Driver) (req : EnrollmentRequest)
    (now : ℤ) (db : CredentialDB) (r : EnrollmentResult)
    (h : (credentials calls).completeEnrollment io req now = (db, .ok r)) :
    (Good req now r db ↔ ∀ hs code,
        (credentials calls).recoverable req.codeHash req.serverID now = some (hs, code) →
        Stands now (credentials calls) hs)
      ∧ ((calls.map (·.now) ++ [now]).Pairwise (· ≤ ·) →
        Run.Along CredentialDB.step Spares .empty calls → Good req now r db) := by
  have hn := credentials_hashes calls
  have hiff : Good req now r db ↔ ∀ hs code,
      (credentials calls).recoverable req.codeHash req.serverID now = some (hs, code) →
      Stands now (credentials calls) hs := by
    rcases completeEnrollment_cases io req now (credentials calls) with
      ⟨e, he⟩ | ⟨hs, code, -, hrec, he⟩ | ⟨hrec, code, db', r', he, hi⟩
    · rw [he] at h
      cases h
    · rw [he] at h
      simp only [Prod.mk.injEq, Except.ok.injEq] at h
      obtain ⟨rfl, rfl⟩ := h
      obtain ⟨-, hcode, hserver, -, -, -⟩ := recoverable_some hrec
      constructor
      · rintro ⟨hcd, ⟨k, hk, hkh, hka⟩, rec, hres⟩ hs' code' hrec'
        rw [hrec] at hrec'
        simp only [Option.some.injEq, Prod.mk.injEq] at hrec'
        obtain ⟨rfl, rfl⟩ := hrec'
        obtain ⟨k', hk', hkh', hkr⟩ := resolveAPIKey_ok hres
        have : k' = k := List.inj_on_of_nodup_map hn hk' hk (hkh'.trans hkh.symm)
        subst this
        refine ⟨?_, k', hk', hkh, hserver ▸ hka, hkr⟩
        rw [hcode]
        exact hcd
      · intro hst
        obtain ⟨hcd, k, hk, hkh, hka, hkr⟩ := hst hs code hrec
        rw [hcode] at hcd
        refine ⟨hcd, ⟨k, hk, hkh, hserver ▸ hka⟩, scanAPIKey k, ?_⟩
        rw [← hkh]
        exact resolveAPIKey_of_resolvable hn hk hkr
    · rw [he] at h
      simp only [Prod.mk.injEq, Except.ok.injEq] at h
      obtain ⟨rfl, rfl⟩ := h
      refine ⟨fun _ hs code hc => ?_, fun _ => ?_⟩
      · rw [hrec] at hc
        cases hc
      · obtain ⟨hcd, k, hk, hkh, hka, hke, hkm⟩ := hi.rows
        obtain ⟨g, hg⟩ := issues_evolves hn hi
        have hr : k.resolvable now := activeFor_resolvable hka hke hkm
        rw [hi.result]
        refine ⟨hcd, ⟨k, hk, hkh, hka⟩, scanAPIKey k, ?_⟩
        dsimp only
        rw [← hkh]
        exact resolveAPIKey_of_resolvable (hg.hashes hn) hk hr
  refine ⟨hiff, fun ht hs => hiff.2 fun h code hrec => ?_⟩
  have hl : Live now (credentials calls) :=
    live_run now calls .empty ht hs (fun _ _ _ hm => absurd hm List.not_mem_nil)
      fun _ hm => absurd hm List.not_mem_nil
  obtain ⟨hm, -, -, hx, -, -⟩ := recoverable_some hrec
  obtain ⟨hcd, k, hk, hkh, hka, hke, hkm⟩ := hl h hm hx
  exact ⟨hcd, k, hk, hkh, hka, activeFor_resolvable hka hke hkm⟩

/-- The enrolled agent of the sample is revoked before it retries. -/
def sampleRevoked : List CredentialCall :=
  sampleEnrollment ++ [⟨.revokeAgent "t_a" "srv-1", 1767225602, fun _ => none⟩]

def sampleRecovered : EnrollmentResult :=
  ⟨"t_a", "Acme", "srv-1", "wma_token", "token-1", true, []⟩

/-- The retry succeeds with the token of the revoked credential. -/
theorem enrollment_recovers_revoked :
    (sampleRevoked.map CredentialCall.now ++ [1767225603]).Pairwise (· ≤ ·)
      ∧ (credentials sampleRevoked).completeEnrollment (fun _ => none) (sampleRequest "token-2")
          1767225603 = (credentials sampleRevoked, .ok sampleRecovered)
      ∧ ¬ Good (sampleRequest "token-2") 1767225603 sampleRecovered
          (credentials sampleRevoked) := by
  refine ⟨by decide, by decide +kernel, ?_⟩
  rintro ⟨-, -, rec, h⟩
  have he : (credentials sampleRevoked).resolveAPIKey (fun _ => none) "token-1" 1767225603
      = .error .apiKeyNotFound := by decide +kernel
  rw [show sampleRecovered.tokenHash = "token-1" from rfl, he] at h
  cases h

/-- Without the revocation the retry recovers a good credential. -/
theorem enrollment_good_sample :
    Run.Along CredentialDB.step Spares .empty sampleEnrollment
      ∧ Good (sampleRequest "token-2") 1767225603 sampleRecovered
          (credentials sampleEnrollment) := by
  have hs : Run.Along CredentialDB.step Spares .empty sampleEnrollment := by
    refine ⟨fun h hm => absurd hm List.not_mem_nil, fun h hm => ?_, trivial⟩
    rw [show (CredentialDB.empty.step ⟨.upsertAPIKey sampleCode, 1767225600, fun _ => none⟩).handshakes
      = [] by decide +kernel] at hm
    exact absurd hm List.not_mem_nil
  exact ⟨hs, (enrollment_good_iff sampleEnrollment (fun _ => none) (sampleRequest "token-2")
    1767225603 _ _ (by decide +kernel)).2 (by decide) hs⟩

/-! ## What a code alone can reach -/

/-- The handshakes are of codes and agent credentials that are there, and expire `HandshakeTTL`
after the credential was issued. -/
def Bound (db : CredentialDB) : Prop :=
  ∀ h ∈ db.handshakes,
    (∃ code ∈ db.apiKeys, code.keyHash = h.codeHash ∧ code.tenantID = h.tenantID)
      ∧ ∃ k ∈ db.apiKeys, k.keyHash = h.keyHash ∧ k.kind = kindAgent ∧ k.tenantID = h.tenantID
        ∧ k.serverID = h.serverID ∧ h.expiresAt = k.createdAt + handshakeTTL

theorem bound_step {db : CredentialDB} {c : CredentialCall} (hI : Indexed db)
    (hf : FreshUpsert db c) (hb : Bound db) : Bound (db.step c) := by
  obtain ⟨g, hg⟩ := step_evolves hI.hashes hf
  intro h hm
  rcases step_handshakes hm with hm | ⟨req, code, r, -, hi, rfl⟩
  · obtain ⟨⟨code, hc, hch, hct⟩, k, hk, hkh, hkk, hkt, hks, hke⟩ := hb h hm
    refine ⟨⟨g code, hg.mem hc, (hg.later _).keyHash.trans hch, (hg.later _).tenantID.trans hct⟩,
      g k, hg.mem hk, (hg.later _).keyHash.trans hkh, (hg.later _).kind.trans hkk,
      (hg.later _).tenantID.trans hkt, (hg.later _).serverID.trans hks, ?_⟩
    rw [(hg.later k).createdAt]
    exact hke
  · refine ⟨⟨g code, hg.mem hi.code_mem, (hg.later _).keyHash.trans hi.code_hash,
      (hg.later _).tenantID⟩, { req.row code c.now with id := db.lastID + 1 }, ?_, rfl, rfl, rfl,
      rfl, rfl⟩
    rw [hi.keys]
    exact List.mem_append_right _ (List.mem_singleton_self _)

theorem credentials_bound {calls : List CredentialCall}
    (hf : Run.Along CredentialDB.step FreshUpsert .empty calls) : Bound (credentials calls) := by
  refine (Run.inv (I := fun db => Indexed db ∧ Bound db) (fun db c hc hI => ?_) hf
    ⟨indexed_empty, fun _ hm => absurd hm List.not_mem_nil⟩).2
  obtain ⟨g, hg⟩ := step_evolves hI.1.hashes hc
  exact ⟨hg.indexed hI.1, bound_step hI.1 hc hI.2⟩

/-- The credential is there and no handshake holds its token. -/
def Sealed (hash : String) (db : CredentialDB) : Prop :=
  (∃ k ∈ db.apiKeys, k.keyHash = hash) ∧ ∀ h ∈ db.handshakes, h.keyHash ≠ hash

theorem sealed_step {hash : String} {db : CredentialDB} {c : CredentialCall} (hI : Indexed db)
    (hf : FreshUpsert db c) (hs : Sealed hash db) : Sealed hash (db.step c) := by
  obtain ⟨g, hg⟩ := step_evolves hI.hashes hf
  obtain ⟨⟨k, hk, hkh⟩, hno⟩ := hs
  refine ⟨⟨g k, hg.mem hk, (hg.later k).keyHash.trans hkh⟩, fun h hm => ?_⟩
  rcases step_handshakes hm with hm | ⟨req, code, r, -, hi, rfl⟩
  · exact hno h hm
  · have := clash_hash (hi.fresh _ (List.mem_map_of_mem (List.mem_map_of_mem hk)))
    intro he
    refine this ?_
    have hl := (countRow_later req.codeHash c.now k).trans
      (revokeRow_later (APIKey.activeFor code.tenantID req.serverID) c.now _)
    exact hl.keyHash.trans (hkh.trans he.symm)

theorem sealed_after {hash : String} {pre post : List CredentialCall} {c : CredentialCall}
    (hf : Run.Along CredentialDB.step FreshUpsert .empty (pre ++ c :: post))
    (hs : Sealed hash ((credentials pre).step c)) : Sealed hash (credentials (pre ++ c :: post)) := by
  obtain ⟨hpre, hc, hpost⟩ := Run.along_append.1 hf
  have hI := credentials_indexed hpre
  obtain ⟨g, hg⟩ := step_evolves hI.hashes hc
  have hrun : credentials (pre ++ c :: post)
      = Run.run CredentialDB.step ((credentials pre).step c) post := Run.run_append
  rw [hrun]
  refine (Run.inv (I := fun db => Indexed db ∧ Sealed hash db) (fun db c hc hI => ?_) hpost
    ⟨hg.indexed hI, hs⟩).2
  obtain ⟨g, hg⟩ := step_evolves hI.1.hashes hc
  exact ⟨hg.indexed hI.1, sealed_step hI.1 hc hI.2⟩

/-- The agent uses the credential `k`: it was touched since it was issued, it was issued
`HandshakeTTL` ago or more, or an operator issued it. -/
def InUse (calls : List CredentialCall) (k : APIKey) (now : ℤ) : Prop :=
  (∃ pre t io post, calls = pre ++ ⟨.touchAPIKey k.keyHash, t, io⟩ :: post
      ∧ (∃ k' ∈ (credentials pre).apiKeys, k'.keyHash = k.keyHash)
      ∧ ((credentials pre).touchAPIKey io k.keyHash t).2 = .ok ())
    ∨ k.createdAt + handshakeTTL ≤ now
    ∨ ∃ pre token pfx t io post r,
      calls = pre ++ ⟨.replaceAgent k.tenantID k.serverID token k.keyHash pfx, t, io⟩ :: post
      ∧ ((credentials pre).replaceAgent io k.tenantID k.serverID token k.keyHash pfx t).2 = .ok r

/-- No handshake of a credential in use is left to recover. -/
theorem inUse_handshakes {calls : List CredentialCall} {k : APIKey} {now : ℤ}
    (hf : Run.Along CredentialDB.step FreshUpsert .empty calls) (hk : k ∈ (credentials calls).apiKeys)
    (hu : InUse calls k now) :
    ∀ h ∈ (credentials calls).handshakes, h.keyHash = k.keyHash → h.expiresAt ≤ now := by
  have hseal : Sealed k.keyHash (credentials calls) →
      ∀ h ∈ (credentials calls).handshakes, h.keyHash = k.keyHash → h.expiresAt ≤ now :=
    fun hs h hm he => absurd he (hs.2 h hm)
  rcases hu with ⟨pre, t, io, post, rfl, ⟨k', hk', hkh⟩, hok⟩ | httl |
    ⟨pre, token, pfx, t, io, post, r, rfl, hok⟩
  · refine hseal (sealed_after hf ?_)
    obtain ⟨hpre, hc, -⟩ := Run.along_append.1 hf
    obtain ⟨g, hg⟩ := step_evolves (credentials_indexed hpre).hashes hc
    refine ⟨⟨g k', hg.mem hk', (hg.later k').keyHash.trans hkh⟩, fun h hm => ?_⟩
    rcases (touchAPIKey_cases io k.keyHash t (credentials pre)).2 with ⟨-, hne⟩ | hh
    · exact absurd hok hne
    · have hm : h ∈ ((credentials pre).touchAPIKey io k.keyHash t).1.handshakes := hm
      rw [hh] at hm
      simpa using (Table.mem_delete.1 hm).2
  · intro h hm he
    obtain ⟨-, x, hx, hxh, -, -, -, hexp⟩ := credentials_bound hf h hm
    have : x = k := List.inj_on_of_nodup_map (credentials_indexed hf).hashes hx hk (hxh.trans he)
    rw [hexp, this]
    exact httl
  · refine hseal (sealed_after hf ?_)
    obtain ⟨hpre, -, -⟩ := Run.along_append.1 hf
    rcases replaceAgent_cases io k.tenantID k.serverID token k.keyHash pfx t (credentials pre) with
      ⟨e, he⟩ | ⟨db', r', name, he, -, hcl, hkeys, hhs, -⟩
    · rw [he] at hok
      cases hok
    · simp only [CredentialDB.step, he]
      refine ⟨⟨{ replacementRow k.tenantID k.serverID k.keyHash pfx name t with
        id := (credentials pre).lastID + 1 }, ?_, rfl⟩, fun h hm heq => ?_⟩
      · rw [hkeys]
        exact List.mem_append_right _ (List.mem_singleton_self _)
      rw [hhs] at hm
      obtain ⟨-, x, hx, hxh, -⟩ := credentials_bound hpre h hm
      refine clash_hash (hcl _ (List.mem_map_of_mem hx)) ?_
      exact (revokeRow_later _ t x).keyHash.trans (hxh.trans heq)

/-- A request with a code of the tenant, without approval or the current token, leaves a credential
in use active and returns no token that resolves. -/
theorem enrollment_code_alone (calls : List CredentialCall)
    (hf : Run.Along CredentialDB.step FreshUpsert .empty calls) (io : Driver)
    (req : EnrollmentRequest) (now : ℤ) (k : APIKey) (hk : k ∈ (credentials calls).apiKeys)
    (ha : k.active = true) (hu : InUse calls k now) (hs : req.serverID = k.serverID)
    (hcode : ∀ code ∈ (credentials calls).apiKeys, code.keyHash = req.codeHash →
      code.tenantID = k.tenantID)
    (hop : req.operatorApproved = false) (hcur : req.currentTokenHash ≠ k.keyHash) :
    (∃ k' ∈ ((credentials calls).completeEnrollment io req now).1.apiKeys,
        k'.keyHash = k.keyHash ∧ k'.activeFor k.tenantID k.serverID = true)
      ∧ ∀ r, ((credentials calls).completeEnrollment io req now).2 = .ok r → ∀ io' now',
        ∃ e, ((credentials calls).completeEnrollment io req now).1.resolveAPIKey io' r.tokenHash
          now' = .error e := by
  have hI := credentials_indexed hf
  have hka : k.activeFor k.tenantID k.serverID = true := activeFor_iff.2 ⟨rfl, rfl, ha⟩
  have hone : k.serverID ≠ "" → ∀ x ∈ (credentials calls).apiKeys,
      x.activeFor k.tenantID k.serverID = true → x = k :=
    fun hne x hx hxa => hI.oneActive k hk x hx ha hne hxa
  rcases completeEnrollment_cases io req now (credentials calls) with
    ⟨e, he⟩ | ⟨h, code, hne, hrec, he⟩ | ⟨-, code, db', r, he, hi⟩
  · rw [he]
    exact ⟨⟨k, hk, rfl, hka⟩, fun r hr => nomatch hr⟩
  · rw [he]
    refine ⟨⟨k, hk, rfl, hka⟩, fun r hr io' now' => ?_⟩
    simp only [Except.ok.injEq] at hr
    subst hr
    rcases hres : (credentials calls).resolveAPIKey io' h.keyHash now' with e | rec
    · exact ⟨e, rfl⟩
    · exfalso
      obtain ⟨hm, hch, hsh, hx, -, -⟩ := recoverable_some hrec
      obtain ⟨⟨c, hc, hcc, hct⟩, x, hxm, hxh, hxk, hxt, hxs, -⟩ := credentials_bound hf h hm
      obtain ⟨y, hym, hyh, -, hyr, -⟩ := resolveAPIKey_ok hres
      have hxy : y = x := List.inj_on_of_nodup_map hI.hashes hym hxm (hyh.trans hxh.symm)
      subst hxy
      have htenant : h.tenantID = k.tenantID := hct.symm.trans (hcode c hc (hcc.trans hch))
      have hxa : y.activeFor k.tenantID k.serverID = true := by
        refine activeFor_iff.2 ⟨hxt.trans htenant, hxs.trans (hsh.trans hs), ?_⟩
        simp [APIKey.active, hxk, hyr]
      have hyk := hone (hs ▸ hne) y hxm hxa
      have := inUse_handshakes hf hk hu h hm (hyk ▸ hxh.symm)
      omega
  · exfalso
    have hct := hcode code hi.code_mem hi.code_hash
    have hmem : k.keyHash ∈ (credentials calls).activeAgentHashes code.tenantID req.serverID := by
      rw [hct, hs]
      exact List.mem_map_of_mem (List.mem_filter.2 ⟨hk, hka⟩)
    rcases hi.allowed with hnil | hall
    · rw [hnil] at hmem
      cases hmem
    · unfold replacementAllowed at hall
      rw [hop, if_neg (by simp)] at hall
      split_ifs at hall
      rw [List.contains_iff_mem, CredentialDB.activeAgentHashes, List.mem_map] at hall
      obtain ⟨x, hx, hxc⟩ := hall
      obtain ⟨hxm, hxa⟩ := List.mem_filter.1 hx
      rw [hct, hs] at hxa
      rw [hone (hs ▸ hi.named) x hxm hxa] at hxc
      exact hcur hxc.symm

/-- The enrolled agent of the sample has used its token. -/
def sampleTouched : List CredentialCall :=
  sampleEnrollment ++ [⟨.touchAPIKey "token-1", 1767225602, fun _ => none⟩]

def sampleAgent : APIKey :=
  { (sampleRequest "token-1").row (sampleCode.row 0) 1767225601 with
    id := 2
    lastSeenAt := 1767225602 }

theorem enrollment_code_alone_sample :
    ((credentials sampleTouched).completeEnrollment (fun _ => none) (sampleRequest "token-2")
        1767225603).2 = .error .rotationRequiresProof
      ∧ ∃ k' ∈ ((credentials sampleTouched).completeEnrollment (fun _ => none)
          (sampleRequest "token-2") 1767225603).1.apiKeys,
        k'.keyHash = "token-1" ∧ k'.activeFor "t_a" "srv-1" = true := by
  refine ⟨by decide +kernel, ?_⟩
  refine (enrollment_code_alone sampleTouched ⟨?_, ?_, ?_, trivial⟩ (fun _ => none)
    (sampleRequest "token-2") 1767225603 sampleAgent (by decide +kernel) (by decide)
    (.inl ⟨sampleEnrollment, 1767225602, fun _ => none, [], rfl, ?_, rfl⟩) rfl
    (by decide +kernel) rfl (by decide)).1
  · exact fun _ _ k hk => absurd hk List.not_mem_nil
  · exact fun _ h => nomatch h
  · exact fun _ h => nomatch h
  · decide +kernel

end WMonitor
