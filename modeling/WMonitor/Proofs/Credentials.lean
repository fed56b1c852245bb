import WMonitor.Credentials

/-!
# What each credential call does

One lemma per call says everything it can do to the tables. From them, `step_evolves`: while
registrations use fresh hashes, a call adds at most one row, which clashes with none, and of the
rows already there it changes only the uses, the last use and the revocation. Use counting, the one
active agent of a server and rollback (`credentials_sound`) follow by induction over the run.
-/

namespace WMonitor

/-! ## Statements -/

theorem insertKey_some {k : APIKey} {db db' : CredentialDB} (h : db.insertKey k = some db') :
    db' = { db with
        apiKeys := db.apiKeys ++ [{ k with id := db.lastID + 1 }]
        lastID := db.lastID + 1 }
      ∧ ∀ x ∈ db.apiKeys, k.clash x = false := by
  unfold CredentialDB.insertKey at h
  obtain ⟨t, ht, rfl⟩ := Option.map_eq_some_iff.1 h
  obtain ⟨rfl, hc⟩ := Table.insert_some ht
  exact ⟨rfl, hc⟩

theorem mem_putHandshake {h h' : Handshake} {db : CredentialDB}
    (hm : h' ∈ (db.putHandshake h).handshakes) :
    h' = h ∨ (h' ∈ db.handshakes ∧ h'.key ≠ h.key) := by
  unfold CredentialDB.putHandshake at hm
  split_ifs at hm with hc
  · obtain ⟨x, hx, rfl⟩ := Table.mem_update.1 hm
    split_ifs with hk
    · exact .inl rfl
    · exact .inr ⟨hx, by simpa using hk⟩
  · rcases List.mem_append.1 hm with hm | hm
    · refine .inr ⟨hm, fun hk => hc ?_⟩
      exact List.any_eq_true.2 ⟨h', hm, by simpa using hk⟩
    · exact .inl (List.mem_singleton.1 hm)

theorem putHandshake_apiKeys (h : Handshake) (db : CredentialDB) :
    (db.putHandshake h).apiKeys = db.apiKeys := by
  unfold CredentialDB.putHandshake
  split_ifs <;> rfl

theorem putHandshake_handshakes {h : Handshake} {db db' : CredentialDB}
    (hd : db'.handshakes = db.handshakes) :
    (db'.putHandshake h).handshakes = (db.putHandshake h).handshakes := by
  unfold CredentialDB.putHandshake
  rw [hd]
  split_ifs <;> rfl

/-- Revoking the active agents of a server that has none changes nothing. -/
theorem revokeWhere_of_none {p : APIKey → Bool} {now : ℤ} {db : CredentialDB}
    (h : ∀ k ∈ db.apiKeys, p k = false) : db.revokeWhere p now = db := by
  have : (db.revokeWhere p now).apiKeys = db.apiKeys := by
    unfold CredentialDB.revokeWhere Table.update
    refine (List.map_congr_left fun k hk => ?_).trans (List.map_id _)
    simp [h k hk]
  cases db
  simpa [CredentialDB.revokeWhere] using this

theorem activeFor_countUse {code tenant server : String} {now : ℤ} {db : CredentialDB}
    (h : db.activeAgentHashes tenant server = []) :
    ∀ k ∈ (db.countUse code now).apiKeys, k.activeFor tenant server = false := by
  intro k hk
  simp only [CredentialDB.activeAgentHashes, List.map_eq_nil_iff, List.filter_eq_nil_iff,
    Bool.not_eq_true] at h
  obtain ⟨x, hx, rfl⟩ := Table.mem_update.1 hk
  split_ifs
  · exact h x hx
  · exact h x hx

/-! ## Calls -/

/-- Everything an enrollment that issued a credential did. -/
structure Issues (req : EnrollmentRequest) (now : ℤ) (code : APIKey) (db db' : CredentialDB)
    (r : EnrollmentResult) : Prop where
  named : req.serverID ≠ ""
  found : db.enrollCode req.codeHash = some code
  code_mem : code ∈ db.apiKeys
  code_hash : code.keyHash = req.codeHash
  code_kind : code.kind = kindEnroll
  code_live : code.revokedAt = 0
  usable : ∃ k ∈ db.apiKeys, CredentialDB.usable req.codeHash now k = true
  allowed : db.activeAgentHashes code.tenantID req.serverID = []
    ∨ replacementAllowed (db.activeAgentHashes code.tenantID req.serverID) req.currentTokenHash
        req.operatorApproved = true
  fresh : ∀ k ∈ ((db.countUse req.codeHash now).revokeWhere
      (APIKey.activeFor code.tenantID req.serverID) now).apiKeys,
    (req.row code now).clash k = false
  keys : db'.apiKeys = ((db.countUse req.codeHash now).revokeWhere
      (APIKey.activeFor code.tenantID req.serverID) now).apiKeys
    ++ [{ req.row code now with id := db.lastID + 1 }]
  handshakes : db'.handshakes = (db.putHandshake (req.handshake code now)).handshakes
  result : r = ⟨code.tenantID, code.clientName, req.serverID, req.token, req.tokenHash, false,
    db.activeAgentHashes code.tenantID req.serverID⟩

theorem grant_ok {io : Driver} {req : EnrollmentRequest} {code : APIKey} {active : List String}
    {now : ℤ} {db db' : CredentialDB} {r : EnrollmentResult}
    (h : grant io req code active now db = .ok (db', r)) :
    (∀ k ∈ db.apiKeys, (req.row code now).clash k = false)
      ∧ db'.apiKeys = db.apiKeys ++ [{ req.row code now with id := db.lastID + 1 }]
      ∧ db'.handshakes = (db.putHandshake (req.handshake code now)).handshakes
      ∧ r = ⟨code.tenantID, code.clientName, req.serverID, req.token, req.tokenHash, false,
        active⟩ := by
  unfold grant at h
  obtain ⟨_, -, h⟩ := Table.ok_of_bind h
  split at h
  · cases h
  · rename_i mid hmid
    obtain ⟨_, -, h⟩ := Table.ok_of_bind h
    obtain ⟨_, -, h⟩ := Table.ok_of_bind h
    obtain ⟨_, -, h⟩ := Table.ok_of_bind h
    simp only [pure, Except.pure, Except.ok.injEq, Prod.mk.injEq] at h
    obtain ⟨rfl, rfl⟩ := h
    obtain ⟨rfl, hc⟩ := insertKey_some hmid
    refine ⟨hc, putHandshake_apiKeys _ _, putHandshake_handshakes rfl, rfl⟩

theorem rotate_ok {io : Driver} {req : EnrollmentRequest} {code : APIKey} {now : ℤ}
    {db db' : CredentialDB} {r : EnrollmentResult}
    (h : rotate io req code (db.activeAgentHashes code.tenantID req.serverID) now db
      = .ok (db', r)) :
    (∃ k ∈ db.apiKeys, CredentialDB.usable req.codeHash now k = true)
      ∧ grant io req code (db.activeAgentHashes code.tenantID req.serverID) now
          ((db.countUse req.codeHash now).revokeWhere
            (APIKey.activeFor code.tenantID req.serverID) now) = .ok (db', r) := by
  unfold rotate at h
  obtain ⟨_, -, h⟩ := Table.ok_of_bind h
  obtain ⟨hone, h⟩ := Table.ok_of_guard h
  refine ⟨?_, ?_⟩
  · obtain ⟨k, hk⟩ := List.length_eq_one_iff.1 (not_not.1 hone)
    have : k ∈ db.apiKeys.filter (CredentialDB.usable req.codeHash now) := by simp [hk]
    exact ⟨k, List.mem_filter.1 this⟩
  · dsimp only at h
    split_ifs at h with ha
    · rwa [revokeWhere_of_none (activeFor_countUse ha)]
    · obtain ⟨_, -, h⟩ := Table.ok_of_bind h
      exact h

theorem issue_ok {io : Driver} {req : EnrollmentRequest} {now : ℤ} {db db' : CredentialDB}
    {r : EnrollmentResult} (hs : req.serverID ≠ "") (h : issue io req now db = .ok (db', r)) :
    ∃ code, Issues req now code db db' r := by
  unfold issue at h
  obtain ⟨_, -, h⟩ := Table.ok_of_bind h
  split at h
  · cases h
  · rename_i code hcode
    obtain ⟨hspent, h⟩ := Table.ok_of_guard h
    obtain ⟨_, -, h⟩ := Table.ok_of_bind h
    have hm := List.mem_of_find?_eq_some hcode
    have hp := List.find?_some hcode
    simp only [Bool.and_eq_true, decide_eq_true_eq] at hp
    have hlive : code.revokedAt = 0 := by
      by_contra hne
      exact hspent (by simp [APIKey.spent, hne])
    obtain ⟨hallow, h⟩ := Table.ok_of_guard h
    obtain ⟨husable, h⟩ := rotate_ok h
    obtain ⟨hfresh, hkeys, hhs, hr⟩ := grant_ok h
    refine ⟨code, hs, hcode, hm, hp.1, hp.2, hlive, husable, ?_, hfresh, hkeys,
      hhs.trans (putHandshake_handshakes rfl), hr⟩
    by_cases ha : db.activeAgentHashes code.tenantID req.serverID = []
    · exact .inl ha
    · refine .inr ?_
      simpa [ha] using hallow

/-- An enrollment fails and changes nothing, hands out a handshake again and changes nothing, or
issues a credential. -/
theorem completeEnrollment_cases (io : Driver) (req : EnrollmentRequest) (now : ℤ)
    (db : CredentialDB) :
    (∃ e, db.completeEnrollment io req now = (db, .error e))
      ∨ (∃ h code, req.serverID ≠ "" ∧ db.recoverable req.codeHash req.serverID now = some (h, code)
        ∧ db.completeEnrollment io req now = (db, .ok ⟨h.tenantID, code.clientName, req.serverID,
          h.token, h.keyHash, true, []⟩))
      ∨ (db.recoverable req.codeHash req.serverID now = none
        ∧ ∃ code db' r, db.completeEnrollment io req now = (db', .ok r)
          ∧ Issues req now code db db' r) := by
  rcases hc : db.completeEnrollment io req now with ⟨db', e | r⟩
  · obtain ⟨rfl, -⟩ := Table.transact_error hc
    exact .inl ⟨e, rfl⟩
  · have h := Table.transact_ok hc
    unfold enroll at h
    obtain ⟨h1, h⟩ := Table.ok_of_guard h
    obtain ⟨-, h⟩ := Table.ok_of_guard h
    obtain ⟨_, -, h⟩ := Table.ok_of_bind h
    obtain ⟨_, -, h⟩ := Table.ok_of_bind h
    obtain ⟨_, -, h⟩ := Table.ok_of_bind h
    have hs : req.serverID ≠ "" := by
      intro hs
      simp [hs] at h1
    split at h
    · rename_i hs' code hrec
      obtain ⟨_, -, h⟩ := Table.ok_of_bind h
      simp only [pure, Except.pure, Except.ok.injEq, Prod.mk.injEq] at h
      obtain ⟨rfl, rfl⟩ := h
      exact .inr (.inl ⟨hs', code, hs, hrec, rfl⟩)
    · rename_i hrec
      obtain ⟨code, hi⟩ := issue_ok hs h
      exact .inr (.inr ⟨hrec, code, db', r, rfl, hi⟩)

theorem replaceAgent_cases (io : Driver) (tenant server token tokenHash pfx : String) (now : ℤ)
    (db : CredentialDB) :
    (∃ e, db.replaceAgent io tenant server token tokenHash pfx now = (db, .error e))
      ∨ ∃ db' r name, db.replaceAgent io tenant server token tokenHash pfx now = (db', .ok r)
        ∧ server ≠ ""
        ∧ (∀ k ∈ (db.revokeWhere (APIKey.activeFor tenant server) now).apiKeys,
          (replacementRow tenant server tokenHash pfx name now).clash k = false)
        ∧ db'.apiKeys = (db.revokeWhere (APIKey.activeFor tenant server) now).apiKeys
          ++ [{ replacementRow tenant server tokenHash pfx name now with id := db.lastID + 1 }]
        ∧ db'.handshakes = db.handshakes
        ∧ r = ⟨tenant, name, server, token, tokenHash, false, db.activeAgentHashes tenant server⟩ := by
  rcases hc : db.replaceAgent io tenant server token tokenHash pfx now with ⟨db', e | r⟩
  · obtain ⟨rfl, -⟩ := Table.transact_error hc
    exact .inl ⟨e, rfl⟩
  · have h := Table.transact_ok hc
    unfold replace at h
    obtain ⟨h1, h⟩ := Table.ok_of_guard h
    have hs : server ≠ "" := by
      intro hs
      simp [hs] at h1
    obtain ⟨_, -, h⟩ := Table.ok_of_bind h
    obtain ⟨_, -, h⟩ := Table.ok_of_bind h
    obtain ⟨_, -, h⟩ := Table.ok_of_bind h
    obtain ⟨-, h⟩ := Table.ok_of_guard h
    obtain ⟨_, -, h⟩ := Table.ok_of_bind h
    obtain ⟨_, -, h⟩ := Table.ok_of_bind h
    split at h
    · cases h
    · rename_i mid hmid
      obtain ⟨_, -, h⟩ := Table.ok_of_bind h
      obtain ⟨_, -, h⟩ := Table.ok_of_bind h
      simp only [pure, Except.pure, Except.ok.injEq, Prod.mk.injEq] at h
      obtain ⟨rfl, rfl⟩ := h
      obtain ⟨rfl, hcl⟩ := insertKey_some hmid
      exact .inr ⟨_, _, _, rfl, hs, hcl, rfl, rfl, rfl⟩

theorem consumeEnrollCode_cases (io : Driver) (codeHash : String) (now : ℤ) (db : CredentialDB) :
    (∃ e, db.consumeEnrollCode io codeHash now = (db, .error e))
      ∨ ∃ rec, db.consumeEnrollCode io codeHash now = (db.countUse codeHash now, .ok rec)
        ∧ ∃ k ∈ db.apiKeys, CredentialDB.usable codeHash now k = true := by
  rcases hc : db.consumeEnrollCode io codeHash now with ⟨db', e | rec⟩
  · obtain ⟨rfl, -⟩ := Table.transact_error hc
    exact .inl ⟨e, rfl⟩
  · have h := Table.transact_ok hc
    unfold consume at h
    obtain ⟨_, -, h⟩ := Table.ok_of_bind h
    split at h
    · cases h
    · rename_i k hk
      simp only [pure, Except.pure, Except.ok.injEq, Prod.mk.injEq] at h
      obtain ⟨rfl, rfl⟩ := h
      exact .inr ⟨_, rfl, k, List.mem_of_find?_eq_some hk, List.find?_some hk⟩

theorem touchAPIKey_cases (io : Driver) (keyHash : String) (now : ℤ) (db : CredentialDB) :
    ((db.touchAPIKey io keyHash now).1.apiKeys = db.apiKeys
        ∨ (db.touchAPIKey io keyHash now).1.apiKeys
          = Table.update (·.keyHash = keyHash) ({ · with lastSeenAt := now }) db.apiKeys)
      ∧ ((db.touchAPIKey io keyHash now).1.handshakes = db.handshakes
          ∧ (db.touchAPIKey io keyHash now).2 ≠ .ok ()
        ∨ (db.touchAPIKey io keyHash now).1.handshakes
          = Table.delete (·.keyHash = keyHash) db.handshakes) := by
  unfold CredentialDB.touchAPIKey
  rcases io.exec 0 with e | _
  · exact ⟨.inl rfl, .inl ⟨rfl, by simp⟩⟩
  · rcases io.exec 1 with e | _
    · exact ⟨.inr rfl, .inl ⟨rfl, by simp⟩⟩
    · exact ⟨.inr rfl, .inr rfl⟩

theorem upsertAPIKey_cases (io : Driver) (r : APIKeyRecord) (now : ℤ) (db : CredentialDB) :
    (∃ e, db.upsertAPIKey io r now = (db, .error e))
      ∨ ∃ db', db.upsertAPIKey io r now = (db', .ok ()) ∧ db'.handshakes = db.handshakes
        ∧ (((∀ k ∈ db.apiKeys, (r.row now).clash k = false)
            ∧ db'.apiKeys = db.apiKeys ++ [{ r.row now with id := db.lastID + 1 }])
          ∨ (∃ k ∈ db.apiKeys, k.keyHash = r.keyHash)
            ∧ db'.apiKeys = Table.update (·.keyHash = r.keyHash) (r.overwrite now) db.apiKeys) := by
  rcases hc : db.upsertAPIKey io r now with ⟨db', e | _⟩
  · obtain ⟨rfl, -⟩ := Table.transact_error hc
    exact .inl ⟨e, rfl⟩
  · have h := Table.transact_ok hc
    unfold upsert at h
    obtain ⟨-, h⟩ := Table.ok_of_guard h
    obtain ⟨-, h⟩ := Table.ok_of_guard h
    obtain ⟨_, -, h⟩ := Table.ok_of_bind h
    refine .inr ⟨db', rfl, ?_⟩
    split at h
    · rename_i hnone
      split at h
      · cases h
      · rename_i mid hmid
        simp only [pure, Except.pure, Except.ok.injEq, Prod.mk.injEq] at h
        obtain ⟨rfl, -⟩ := h
        obtain ⟨rfl, hcl⟩ := insertKey_some hmid
        exact ⟨rfl, .inl ⟨hcl, rfl⟩⟩
    · rename_i k hk
      obtain ⟨-, h⟩ := Table.ok_of_guard h
      simp only [pure, Except.pure, Except.ok.injEq, Prod.mk.injEq] at h
      obtain ⟨rfl, -⟩ := h
      exact ⟨rfl, .inr ⟨⟨k, Table.lookup_mem hk⟩, rfl⟩⟩

theorem revoke_cases (io : Driver) (p : APIKey → Bool) (now : ℤ) (db : CredentialDB) :
    (db.revoke io p now).1.handshakes = db.handshakes
      ∧ ((db.revoke io p now).1.apiKeys = db.apiKeys
        ∨ (db.revoke io p now).1.apiKeys = (db.revokeWhere p now).apiKeys) := by
  unfold CredentialDB.revoke
  rcases io.exec 0 with e | _
  · exact ⟨rfl, .inl rfl⟩
  · dsimp only
    split_ifs
    · rcases io.exec 1 with e | _
      · exact ⟨rfl, .inr rfl⟩
      · exact ⟨rfl, .inr rfl⟩
    · exact ⟨rfl, .inr rfl⟩

theorem revokeKeyHash_cases (io : Driver) (keyHash : String) (now : ℤ) (db : CredentialDB) :
    (db.revokeKeyHash io keyHash now).1.handshakes = db.handshakes
      ∧ ((db.revokeKeyHash io keyHash now).1.apiKeys = db.apiKeys
        ∨ (db.revokeKeyHash io keyHash now).1.apiKeys
          = (db.revokeWhere (·.keyHash = keyHash) now).apiKeys) := by
  unfold CredentialDB.revokeKeyHash
  split_ifs
  · exact ⟨rfl, .inl rfl⟩
  · exact revoke_cases io _ now db

/-! ## Steps -/

/-- `k'` is the row `k` later: only its uses, its last use and its revocation may differ, and a
revocation stays. -/
structure APIKey.Later (k k' : APIKey) : Prop where
  same : k' = { k with uses := k'.uses, lastSeenAt := k'.lastSeenAt, revokedAt := k'.revokedAt }
  revoked : k.revokedAt ≠ 0 → k'.revokedAt = k.revokedAt

namespace APIKey.Later

variable {k k' k'' : APIKey}

theorem refl (k : APIKey) : k.Later k := ⟨rfl, fun _ => rfl⟩

theorem trans (h : k.Later k') (h' : k'.Later k'') : k.Later k'' := by
  refine ⟨?_, fun hr => ?_⟩
  · rw [h'.same, h.same]
  · rw [h'.revoked (by rw [h.revoked hr]; exact hr), h.revoked hr]

theorem keyHash (h : k.Later k') : k'.keyHash = k.keyHash := by rw [h.same]

theorem tenantID (h : k.Later k') : k'.tenantID = k.tenantID := by rw [h.same]

theorem serverID (h : k.Later k') : k'.serverID = k.serverID := by rw [h.same]

theorem kind (h : k.Later k') : k'.kind = k.kind := by rw [h.same]

theorem createdAt (h : k.Later k') : k'.createdAt = k.createdAt := by rw [h.same]

theorem maxUses (h : k.Later k') : k'.maxUses = k.maxUses := by rw [h.same]

theorem active (h : k.Later k') (ha : k'.active = true) : k.active = true := by
  simp only [APIKey.active, Bool.and_eq_true, decide_eq_true_eq] at *
  refine ⟨h.kind ▸ ha.1, ?_⟩
  by_contra hne
  exact hne ((h.revoked hne).symm.trans ha.2)

end APIKey.Later

/-- What `countUse` does to a row. -/
def countRow (codeHash : String) (now : ℤ) (k : APIKey) : APIKey :=
  if CredentialDB.usable codeHash now k then { k with uses := k.uses + 1 } else k

/-- What `revokeWhere` does to a row. -/
def revokeRow (p : APIKey → Bool) (now : ℤ) (k : APIKey) : APIKey :=
  if p k && k.revokedAt = 0 then { k with revokedAt := now } else k

theorem countUse_apiKeys (codeHash : String) (now : ℤ) (db : CredentialDB) :
    (db.countUse codeHash now).apiKeys = db.apiKeys.map (countRow codeHash now) := rfl

theorem revokeWhere_apiKeys (p : APIKey → Bool) (now : ℤ) (db : CredentialDB) :
    (db.revokeWhere p now).apiKeys = db.apiKeys.map (revokeRow p now) := rfl

theorem countRow_later (codeHash : String) (now : ℤ) (k : APIKey) :
    k.Later (countRow codeHash now k) := by
  unfold countRow
  split_ifs
  · exact ⟨rfl, fun _ => rfl⟩
  · exact .refl k

theorem revokeRow_later (p : APIKey → Bool) (now : ℤ) (k : APIKey) :
    k.Later (revokeRow p now k) := by
  unfold revokeRow
  split_ifs with h
  · simp only [Bool.and_eq_true, decide_eq_true_eq] at h
    exact ⟨rfl, fun hne => absurd h.2 hne⟩
  · exact .refl k

theorem countRow_uses (codeHash : String) (now : ℤ) (k : APIKey) :
    (countRow codeHash now k).uses = k.uses + (CredentialDB.usable codeHash now k).toNat := by
  unfold countRow
  split_ifs with h <;> simp [h]

theorem revokeRow_uses (p : APIKey → Bool) (now : ℤ) (k : APIKey) :
    (revokeRow p now k).uses = k.uses := by
  unfold revokeRow
  split_ifs <;> rfl

/-- The rows there keep their identity under `g`, which counts a use where `counted` says so; at
most one row is added, which is `new` and clashes with none. -/
structure Evolves (g : APIKey → APIKey) (counted : APIKey → Bool) (new : APIKey → Prop)
    (db db' : CredentialDB) : Prop where
  later : ∀ k : APIKey, k.Later (g k)
  uses : ∀ k ∈ db.apiKeys, k.kind = kindEnroll →
    (g k).uses = k.uses + (counted k).toNat
  room : ∀ k ∈ db.apiKeys, counted k = true → k.maxUses = 0 ∨ k.uses < k.maxUses
  keys : db'.apiKeys = db.apiKeys.map g
    ∨ ∃ r, db'.apiKeys = db.apiKeys.map g ++ [r] ∧ new r ∧ ∀ k ∈ db.apiKeys, r.clash (g k) = false

/-- The registration, if the call is one, is of a hash that is not there. -/
def FreshUpsert (db : CredentialDB) (c : CredentialCall) : Prop :=
  ∀ r, c.op = .upsertAPIKey r → ∀ k ∈ db.apiKeys, k.keyHash ≠ r.keyHash

theorem Evolves.of_keys {g : APIKey → APIKey} {counted : APIKey → Bool} {new : APIKey → Prop}
    {db db' : CredentialDB}
    (later : ∀ k : APIKey, k.Later (g k)) (uses : ∀ k, (g k).uses = k.uses)
    (none : ∀ k, counted k = false)
    (keys : db'.apiKeys = db.apiKeys.map g
      ∨ ∃ r, db'.apiKeys = db.apiKeys.map g ++ [r] ∧ new r
        ∧ ∀ k ∈ db.apiKeys, r.clash (g k) = false) :
    Evolves g counted new db db' := by
  refine ⟨later, fun k _ _ => ?_, fun k _ hk => ?_, keys⟩
  · simp [uses, none]
  · simp [none] at hk

theorem Evolves.idle {counted : APIKey → Bool} {new : APIKey → Prop} {db db' : CredentialDB}
    (none : ∀ k, counted k = false) (h : db'.apiKeys = db.apiKeys) :
    Evolves id counted new db db' :=
  .of_keys .refl (fun _ => rfl) none (.inl (by simp [h]))

theorem Evolves.revokeWhere {counted : APIKey → Bool} {new : APIKey → Prop}
    {db db' : CredentialDB} {p : APIKey → Bool} {now : ℤ} (none : ∀ k, counted k = false)
    (h : db'.apiKeys = (db.revokeWhere p now).apiKeys
      ∨ ∃ r, db'.apiKeys = (db.revokeWhere p now).apiKeys ++ [r] ∧ new r
        ∧ ∀ k ∈ (db.revokeWhere p now).apiKeys, r.clash k = false) :
    ∃ g, Evolves g counted new db db' := by
  refine ⟨_, .of_keys (revokeRow_later p now) (revokeRow_uses p now) none ?_⟩
  rcases h with h | ⟨r, h, hr, hc⟩
  · exact .inl h
  · exact .inr ⟨r, h, hr, fun k hk => hc _ (List.mem_map_of_mem hk)⟩

theorem usable_of_hash {db : CredentialDB} {codeHash : String} {now : ℤ}
    (hn : (db.apiKeys.map (·.keyHash)).Nodup)
    (hu : ∃ k ∈ db.apiKeys, CredentialDB.usable codeHash now k = true) {k : APIKey}
    (hk : k ∈ db.apiKeys) :
    CredentialDB.usable codeHash now k = decide (codeHash = k.keyHash) := by
  obtain ⟨k₀, hk₀, hu⟩ := hu
  have h₀ : k₀.keyHash = codeHash := by
    simp only [CredentialDB.usable, Bool.and_eq_true, decide_eq_true_eq] at hu
    exact hu.1.1.1.1
  by_cases hc : codeHash = k.keyHash
  · have : k₀ = k := List.inj_on_of_nodup_map hn hk₀ hk (h₀.trans hc)
    subst this
    simpa [h₀] using hu
  · have : k.keyHash ≠ codeHash := fun h => hc h.symm
    simp [CredentialDB.usable, this, hc]

theorem usable_room {codeHash : String} {now : ℤ} {k : APIKey}
    (hu : CredentialDB.usable codeHash now k = true) : k.maxUses = 0 ∨ k.uses < k.maxUses := by
  simp only [CredentialDB.usable, Bool.and_eq_true, Bool.or_eq_true, decide_eq_true_eq] at hu
  exact hu.2

theorem issues_evolves {req : EnrollmentRequest} {now : ℤ} {code : APIKey} {db db' : CredentialDB}
    {r : EnrollmentResult} (hn : (db.apiKeys.map (·.keyHash)).Nodup)
    (hi : Issues req now code db db' r) :
    ∃ g, Evolves g (fun k => req.codeHash = k.keyHash) (·.kind = kindAgent) db db' := by
  have hu := fun k (hk : k ∈ db.apiKeys) => usable_of_hash hn hi.usable hk
  refine ⟨revokeRow (APIKey.activeFor code.tenantID req.serverID) now
    ∘ countRow req.codeHash now, ?_, ?_, ?_,
    .inr ⟨{ req.row code now with id := db.lastID + 1 }, ?_, rfl, ?_⟩⟩
  · exact fun k => (countRow_later _ _ k).trans (revokeRow_later _ _ _)
  · intro k hk _
    rw [Function.comp, revokeRow_uses, countRow_uses, hu k hk]
  · intro k hk hc
    exact usable_room ((hu k hk).trans hc)
  · rw [hi.keys, revokeWhere_apiKeys, countUse_apiKeys, List.map_map]
  · intro k hk
    refine hi.fresh _ ?_
    rw [revokeWhere_apiKeys, countUse_apiKeys, List.map_map]
    exact List.mem_map_of_mem hk

/-- A row the call may add: the one it registers, or an agent credential. -/
def Added (c : CredentialCall) (k : APIKey) : Prop :=
  (∃ r, c.op = .upsertAPIKey r ∧ ∃ n, k = { r.row c.now with id := n }) ∨ k.kind = kindAgent

theorem Evolves.mono {g : APIKey → APIKey} {counted : APIKey → Bool} {new new' : APIKey → Prop}
    {db db' : CredentialDB} (h : Evolves g counted new db db') (hn : ∀ k, new k → new' k) :
    Evolves g counted new' db db' := by
  refine ⟨h.later, h.uses, h.room, ?_⟩
  rcases h.keys with hk | ⟨r, hk, hr, hc⟩
  · exact .inl hk
  · exact .inr ⟨r, hk, hn r hr, hc⟩

/-- Whatever the call, while registrations are of fresh hashes the rows there keep their identity
and count exactly the uses the call committed. -/
theorem step_evolves {db : CredentialDB} {c : CredentialCall}
    (hn : (db.apiKeys.map (·.keyHash)).Nodup) (hf : FreshUpsert db c) :
    ∃ g, Evolves g (fun k => c.uses k.keyHash db) (Added c) db (db.step c) := by
  obtain ⟨op, now, io⟩ := c
  cases op with
  | upsertAPIKey r =>
    have none : ∀ k : APIKey, (CredentialCall.mk (.upsertAPIKey r) now io).uses k.keyHash db = false :=
      fun _ => rfl
    simp only [CredentialDB.step]
    rcases upsertAPIKey_cases io r now db with ⟨e, he⟩ | ⟨db', he, -, h⟩
    · rw [he]
      exact ⟨_, .idle none rfl⟩
    · rw [he]
      rcases h with ⟨hc, hk⟩ | ⟨⟨k, hk, hh⟩, -⟩
      · refine ⟨id, .of_keys .refl (fun _ => rfl) none
          (.inr ⟨{ r.row now with id := db.lastID + 1 }, ?_, .inl ⟨r, rfl, _, rfl⟩, hc⟩)⟩
        simpa using hk
      · exact absurd hh (hf r rfl k hk)
  | completeEnrollment req =>
    simp only [CredentialDB.step, CredentialCall.uses]
    rcases completeEnrollment_cases io req now db with
      ⟨e, he⟩ | ⟨h, code, -, -, he⟩ | ⟨-, code, db', r, he, hi⟩
    · rw [he]
      exact ⟨_, .idle (fun _ => rfl) rfl⟩
    · rw [he]
      exact ⟨_, .idle (fun _ => by simp) rfl⟩
    · rw [he]
      simp only [hi.result, Bool.not_false, Bool.and_true]
      obtain ⟨g, hg⟩ := issues_evolves hn hi
      exact ⟨g, hg.mono fun _ => .inr⟩
  | replaceAgent tenant server token tokenHash pfx =>
    simp only [CredentialDB.step]
    rcases replaceAgent_cases io tenant server token tokenHash pfx now db with
      ⟨e, he⟩ | ⟨db', r, name, he, -, hc, hk, -⟩
    · rw [he]
      exact ⟨_, .idle (fun _ => rfl) rfl⟩
    · rw [he]
      exact Evolves.revokeWhere (fun _ => rfl) (.inr ⟨_, hk, .inr rfl, hc⟩)
  | consumeEnrollCode codeHash =>
    simp only [CredentialDB.step, CredentialCall.uses]
    rcases consumeEnrollCode_cases io codeHash now db with ⟨e, he⟩ | ⟨rec, he, hu⟩
    · rw [he]
      exact ⟨_, .idle (fun _ => rfl) rfl⟩
    · rw [he]
      have hu' := fun k (hk : k ∈ db.apiKeys) => usable_of_hash hn hu hk
      refine ⟨_, countRow_later codeHash now, fun k hk _ => ?_, fun k hk hc => ?_, .inl rfl⟩
      · rw [countRow_uses, hu' k hk]
      · exact usable_room ((hu' k hk).trans hc)
  | touchAPIKey keyHash =>
    simp only [CredentialDB.step]
    rcases (touchAPIKey_cases io keyHash now db).1 with hk | hk
    · exact ⟨_, .idle (fun _ => rfl) hk⟩
    · refine ⟨_, .of_keys (fun k => ?_) (fun k => ?_) (fun _ => rfl) (.inl hk)⟩
      · split_ifs
        · exact ⟨rfl, fun _ => rfl⟩
        · exact .refl k
      · split_ifs <;> rfl
  | revokeAPIKey clientName =>
    rcases (revoke_cases io (·.clientName = clientName) now db).2 with hk | hk
    · exact ⟨_, .idle (fun _ => rfl) hk⟩
    · exact Evolves.revokeWhere (fun _ => rfl) (.inl hk)
  | revokeKeyHash keyHash =>
    rcases (revokeKeyHash_cases io keyHash now db).2 with hk | hk
    · exact ⟨_, .idle (fun _ => rfl) hk⟩
    · exact Evolves.revokeWhere (fun _ => rfl) (.inl hk)
  | revokeAgent tenant server =>
    rcases (revoke_cases io _ now db).2 with hk | hk
    · exact ⟨_, .idle (fun _ => rfl) hk⟩
    · exact Evolves.revokeWhere (fun _ => rfl) (.inl hk)

/-! ## The unique indexes -/

/-- The two unique indexes of `api_keys` hold. -/
structure Indexed (db : CredentialDB) : Prop where
  hashes : (db.apiKeys.map (·.keyHash)).Nodup
  oneActive : ∀ k ∈ db.apiKeys, ∀ k' ∈ db.apiKeys, k.active = true → k.serverID ≠ "" →
    k'.activeFor k.tenantID k.serverID = true → k' = k

theorem activeFor_iff {k : APIKey} {tenant server : String} :
    k.activeFor tenant server = true
      ↔ k.tenantID = tenant ∧ k.serverID = server ∧ k.active = true := by
  simp only [APIKey.activeFor, Bool.and_eq_true, decide_eq_true_eq, and_assoc]

theorem clash_hash {k k' : APIKey} (h : k.clash k' = false) : k'.keyHash ≠ k.keyHash := by
  simp only [APIKey.clash, Bool.or_eq_false_iff, decide_eq_false_iff_not] at h
  exact fun he => h.1 he.symm

theorem clash_active {k k' : APIKey} (h : k.clash k' = false) (ha : k.active = true)
    (hs : k.serverID ≠ "") : k'.activeFor k.tenantID k.serverID = false := by
  simp only [APIKey.clash, Bool.or_eq_false_iff] at h
  simpa [ha, hs] using h.2

theorem Evolves.hashes {g : APIKey → APIKey} {counted : APIKey → Bool} {new : APIKey → Prop}
    {db db' : CredentialDB} (h : Evolves g counted new db db')
    (hn : (db.apiKeys.map (·.keyHash)).Nodup) : (db'.apiKeys.map (·.keyHash)).Nodup := by
  have hhash : (db.apiKeys.map g).map (·.keyHash) = db.apiKeys.map (·.keyHash) := by
    rw [List.map_map]
    exact List.map_congr_left fun k _ => (h.later k).keyHash
  rcases h.keys with hk | ⟨r, hk, -, hc⟩
  · rw [hk, hhash]
    exact hn
  · rw [hk]
    refine Table.nodup_append (by rw [hhash]; exact hn) fun x hx => ?_
    obtain ⟨k, hkm, rfl⟩ := List.mem_map.1 hx
    exact clash_hash (hc k hkm)

theorem Evolves.indexed {g : APIKey → APIKey} {counted : APIKey → Bool} {new : APIKey → Prop}
    {db db' : CredentialDB} (h : Evolves g counted new db db') (hI : Indexed db) :
    Indexed db' := by
  have hone : ∀ k ∈ db.apiKeys, ∀ k' ∈ db.apiKeys, (g k).active = true → (g k).serverID ≠ "" →
      (g k').activeFor (g k).tenantID (g k).serverID = true → g k' = g k := by
    intro k hk k' hk' ha hs ha'
    rw [activeFor_iff, (h.later k).tenantID, (h.later k).serverID, (h.later k').tenantID,
      (h.later k').serverID] at ha'
    rw [(h.later k).serverID] at hs
    obtain ⟨ht, hse, hac⟩ := ha'
    rw [hI.oneActive k hk k' hk' ((h.later k).active ha) hs
      (activeFor_iff.2 ⟨ht, hse, (h.later k').active hac⟩)]
  refine ⟨h.hashes hI.hashes, ?_⟩
  rcases h.keys with hk | ⟨r, hk, -, hc⟩
  · rw [hk]
    intro x hx y hy
    obtain ⟨k, hkm, rfl⟩ := List.mem_map.1 hx
    obtain ⟨k', hkm', rfl⟩ := List.mem_map.1 hy
    exact hone k hkm k' hkm'
  · rw [hk]
    intro x hx y hy hax hsx hay
    rcases List.mem_append.1 hx with hx | hx <;> rcases List.mem_append.1 hy with hy | hy
    · obtain ⟨k, hkm, rfl⟩ := List.mem_map.1 hx
      obtain ⟨k', hkm', rfl⟩ := List.mem_map.1 hy
      exact hone k hkm k' hkm' hax hsx hay
    · obtain ⟨k, hkm, rfl⟩ := List.mem_map.1 hx
      rw [List.mem_singleton.1 hy] at hay ⊢
      obtain ⟨ht, hs, ha⟩ := activeFor_iff.1 hay
      have := clash_active (hc k hkm) ha (hs ▸ hsx)
      rw [ht, hs, APIKey.activeFor, hax] at this
      simp at this
    · obtain ⟨k, hkm, rfl⟩ := List.mem_map.1 hy
      rw [List.mem_singleton.1 hx] at hax hsx hay
      rw [clash_active (hc k hkm) hax hsx] at hay
      cases hay
    · rw [List.mem_singleton.1 hx, List.mem_singleton.1 hy]

/-- A server has at most one active agent. -/
theorem Indexed.length_activeFor {db : CredentialDB} (hI : Indexed db) {tenant server : String}
    (hs : server ≠ "") : (db.apiKeys.filter (APIKey.activeFor tenant server)).length ≤ 1 := by
  have hnd := (List.Nodup.of_map _ hI.hashes).filter (APIKey.activeFor tenant server)
  have hmem := fun k => @List.mem_filter _ (APIKey.activeFor tenant server) db.apiKeys k
  rcases hl : db.apiKeys.filter (APIKey.activeFor tenant server) with _ | ⟨k, _ | ⟨k', l⟩⟩
  · simp
  · simp
  · rw [hl] at hnd hmem
    obtain ⟨hk, ha⟩ := (hmem k).1 (by simp)
    obtain ⟨hk', ha'⟩ := (hmem k').1 (by simp)
    obtain ⟨rfl, rfl, hact⟩ := activeFor_iff.1 ha
    have := hI.oneActive k hk k' hk' hact hs ha'
    simp [this] at hnd

theorem Evolves.mem {g : APIKey → APIKey} {counted : APIKey → Bool} {new : APIKey → Prop}
    {db db' : CredentialDB} (h : Evolves g counted new db db') {k : APIKey}
    (hk : k ∈ db.apiKeys) : g k ∈ db'.apiKeys := by
  rcases h.keys with he | ⟨r, he, -⟩
  · rw [he]
    exact List.mem_map_of_mem hk
  · rw [he]
    exact List.mem_append_left _ (List.mem_map_of_mem hk)

theorem indexed_empty : Indexed .empty :=
  ⟨List.nodup_nil, fun _ hk => absurd hk List.not_mem_nil⟩

theorem credentials_indexed {calls : List CredentialCall}
    (hf : Run.Along CredentialDB.step FreshUpsert .empty calls) : Indexed (credentials calls) := by
  refine Run.inv (fun db c hc hI => ?_) hf indexed_empty
  obtain ⟨g, hg⟩ := step_evolves hI.hashes hc
  exact hg.indexed hI

/-! ## Uses -/

theorem uses_mem {c : CredentialCall} {codeHash : String} {db : CredentialDB}
    (h : c.uses codeHash db = true) :
    ∃ k ∈ db.apiKeys, k.keyHash = codeHash ∧ k.revokedAt = 0 := by
  obtain ⟨op, now, io⟩ := c
  cases op with
  | completeEnrollment req =>
    simp only [CredentialCall.uses] at h
    rcases completeEnrollment_cases io req now db with
      ⟨e, he⟩ | ⟨hs, code, -, -, he⟩ | ⟨-, code, db', r, he, hi⟩
    · simp [he] at h
    · simp [he] at h
    · simp only [he, Bool.and_eq_true, decide_eq_true_eq] at h
      exact ⟨code, hi.code_mem, hi.code_hash.trans h.1, hi.code_live⟩
  | consumeEnrollCode code =>
    simp only [CredentialCall.uses] at h
    rcases consumeEnrollCode_cases io code now db with ⟨e, he⟩ | ⟨rec, he, k, hk, hu⟩
    · simp [he] at h
    · simp only [he, decide_eq_true_eq] at h
      simp only [CredentialDB.usable, Bool.and_eq_true, decide_eq_true_eq] at hu
      exact ⟨k, hk, hu.1.1.1.1.trans h, hu.1.1.1.2⟩
  | _ => cases h

theorem committedUses_append (codeHash : String) (c : CredentialCall) :
    ∀ (calls : List CredentialCall) (db : CredentialDB),
      committedUses codeHash (calls ++ [c]) db = committedUses codeHash calls db
        + (c.uses codeHash (Run.run CredentialDB.step db calls)).toNat
  | [], db => by simp [committedUses, Run.run]
  | c' :: calls, db => by
    simp only [List.cons_append, committedUses, committedUses_append codeHash c calls, add_assoc]
    rfl

theorem credentials_append (calls : List CredentialCall) (c : CredentialCall) :
    credentials (calls ++ [c]) = (credentials calls).step c := Run.run_append

/-- `r` is the registration that made the row of its hash in the run. -/
def RegisteredBy (r : APIKeyRecord) (calls : List CredentialCall) : Prop :=
  ∃ pre now io post, calls = pre ++ ⟨.upsertAPIKey r, now, io⟩ :: post
    ∧ (∀ k ∈ (credentials pre).apiKeys, k.keyHash ≠ r.keyHash)
    ∧ ((credentials pre).upsertAPIKey io r now).2 = .ok ()

theorem RegisteredBy.append {r : APIKeyRecord} {calls : List CredentialCall}
    (h : RegisteredBy r calls) (c : CredentialCall) : RegisteredBy r (calls ++ [c]) := by
  obtain ⟨pre, now, io, post, rfl, hf, hok⟩ := h
  exact ⟨pre, now, io, post ++ [c], by simp, hf, hok⟩

/-- A hash that is not in the store has no committed use, and a code counts the uses committed
since it was registered, within its limit if it started so. -/
structure UsesCounted (calls : List CredentialCall) : Prop where
  absent : ∀ hash, (∀ k ∈ (credentials calls).apiKeys, k.keyHash ≠ hash) →
    committedUses hash calls .empty = 0
  counted : ∀ k ∈ (credentials calls).apiKeys, k.kind = kindEnroll → ∃ r, RegisteredBy r calls
    ∧ r.keyHash = k.keyHash ∧ r.maxUses = k.maxUses
    ∧ k.uses = r.uses + committedUses k.keyHash calls .empty
    ∧ (0 < k.maxUses → r.uses ≤ k.maxUses → k.uses ≤ k.maxUses)

theorem usesCounted_append {calls : List CredentialCall} {c : CredentialCall}
    (hI : Indexed (credentials calls)) (hf : FreshUpsert (credentials calls) c)
    (hU : UsesCounted calls) : UsesCounted (calls ++ [c]) := by
  obtain ⟨g, hg⟩ := step_evolves hI.hashes hf
  have hcom := fun hash => committedUses_append hash c calls .empty
  have hold : ∀ k ∈ (credentials calls).apiKeys, g k ∈ (credentials (calls ++ [c])).apiKeys :=
    fun k hk => credentials_append calls c ▸ hg.mem hk
  have hzero : ∀ hash, (∀ k ∈ (credentials calls).apiKeys, k.keyHash ≠ hash) →
      committedUses hash (calls ++ [c]) .empty = 0 := by
    intro hash hno
    rw [hcom, hU.absent hash hno, zero_add]
    cases hu : c.uses hash (Run.run CredentialDB.step .empty calls) with
    | false => rfl
    | true =>
      obtain ⟨k, hk, he, -⟩ := uses_mem hu
      exact absurd he (hno k hk)
  refine ⟨fun hash hno => hzero hash fun k hk he => ?_, fun k hk hkind => ?_⟩
  · exact hno (g k) (hold k hk) ((hg.later k).keyHash.trans he)
  have hrow : ∀ k ∈ (credentials calls).apiKeys, (g k).kind = kindEnroll →
      ∃ r, RegisteredBy r (calls ++ [c]) ∧ r.keyHash = (g k).keyHash ∧ r.maxUses = (g k).maxUses
        ∧ (g k).uses = r.uses + committedUses (g k).keyHash (calls ++ [c]) .empty
        ∧ (0 < (g k).maxUses → r.uses ≤ (g k).maxUses → (g k).uses ≤ (g k).maxUses) := by
    intro k hk hkind
    rw [(hg.later k).kind] at hkind
    obtain ⟨r, hr, hh, hm, hu, hle⟩ := hU.counted k hk hkind
    refine ⟨r, hr.append c, ?_⟩
    rw [(hg.later k).keyHash, (hg.later k).maxUses, hg.uses k hk hkind, hcom]
    refine ⟨hh, hm, ?_, fun hpos hstart => ?_⟩
    · rw [hu, Nat.cast_add, add_assoc]
      rfl
    · have := hle hpos hstart
      cases hc : c.uses k.keyHash (credentials calls) with
      | true =>
        have := hg.room k hk hc
        simp only [Bool.toNat_true]
        omega
      | false =>
        simp only [Bool.toNat_false]
        omega
  rw [credentials_append] at hk
  rcases hg.keys with h | ⟨r', h, hnew, hclash⟩
  · rw [h] at hk
    obtain ⟨k, hkm, rfl⟩ := List.mem_map.1 hk
    exact hrow k hkm hkind
  · rw [h] at hk
    rcases List.mem_append.1 hk with hk | hk
    · obtain ⟨k, hkm, rfl⟩ := List.mem_map.1 hk
      exact hrow k hkm hkind
    · rw [List.mem_singleton.1 hk] at hkind ⊢
      rcases hnew with ⟨r, hop, n, rfl⟩ | hagent
      · obtain ⟨op, now, io⟩ := c
        obtain rfl : op = .upsertAPIKey r := hop
        have hno := hf r rfl
        have hok : ((credentials calls).upsertAPIKey io r now).2 = .ok () := by
          rcases upsertAPIKey_cases io r now (credentials calls) with ⟨e, he⟩ | ⟨db', he, -⟩
          · simp only [CredentialDB.step, he] at h
            have := congrArg List.length h
            simp at this
          · rw [he]
        refine ⟨r, ⟨calls, now, io, [], rfl, hno, hok⟩, rfl, rfl, ?_, fun _ hs => hs⟩
        have := hzero _ hno
        dsimp only
        simp [APIKeyRecord.row, this]
      · rw [hagent] at hkind
        exact absurd hkind (by decide)

theorem usesCounted_of_fresh (calls : List CredentialCall)
    (hf : Run.Along CredentialDB.step FreshUpsert .empty calls) : UsesCounted calls := by
  induction calls using List.reverseRecOn with
  | nil => exact ⟨fun _ _ => rfl, fun _ hk => absurd hk List.not_mem_nil⟩
  | append_singleton calls c ih =>
    rw [Run.along_append] at hf
    exact usesCounted_append (credentials_indexed hf.1) hf.2.1 (ih hf.1)

/-- After any calls with fresh registrations: codes count their committed uses within their limit,
a server has one active agent, and an enrollment, replacement or consumption that fails changes
nothing. -/
theorem credentials_sound (calls : List CredentialCall)
    (hf : Run.Along CredentialDB.step FreshUpsert .empty calls) :
    (∀ k ∈ (credentials calls).apiKeys, k.kind = kindEnroll → ∃ r, RegisteredBy r calls
      ∧ r.keyHash = k.keyHash ∧ k.uses = r.uses + committedUses k.keyHash calls .empty
      ∧ (0 < k.maxUses → r.uses ≤ k.maxUses → k.uses ≤ k.maxUses))
    ∧ (∀ tenant server, server ≠ "" →
      ((credentials calls).apiKeys.filter (APIKey.activeFor tenant server)).length ≤ 1)
    ∧ ∀ io now e,
      (∀ req, ((credentials calls).completeEnrollment io req now).2 = .error e →
        ((credentials calls).completeEnrollment io req now).1 = credentials calls)
      ∧ (∀ tenant server token hash pfx,
        ((credentials calls).replaceAgent io tenant server token hash pfx now).2 = .error e →
        ((credentials calls).replaceAgent io tenant server token hash pfx now).1
          = credentials calls)
      ∧ ∀ code, ((credentials calls).consumeEnrollCode io code now).2 = .error e →
        ((credentials calls).consumeEnrollCode io code now).1 = credentials calls := by
  have hI := credentials_indexed hf
  refine ⟨fun k hk hkind => ?_, fun tenant server hs => ?_, fun io now e => ⟨?_, ?_, ?_⟩⟩
  · obtain ⟨r, hr, hh, -, hu, hle⟩ := (usesCounted_of_fresh calls hf).counted k hk hkind
    exact ⟨r, hr, hh, hu, hle⟩
  · exact hI.length_activeFor hs
  · intro req h
    exact (Table.transact_error (Prod.ext rfl h)).1
  · intro tenant server token hash pfx h
    exact (Table.transact_error (Prod.ext rfl h)).1
  · intro code h
    exact (Table.transact_error (Prod.ext rfl h)).1

/-! ## A sample -/

def sampleCode : APIKeyRecord where
  id := 0
  tenantID := "t_a"
  clientName := "Acme"
  keyHash := "code"
  keyPrefix := "wme_"
  kind := kindEnroll
  scope := "enroll"
  expiresAt := zeroTime
  maxUses := 2
  uses := 0
  serverID := ""
  issuedBy := ""
  createdAt := zeroTime
  lastSeenAt := zeroTime
  revoked := false

def sampleRequest (tokenHash : String) : EnrollmentRequest :=
  ⟨"code", "srv-1", "", false, "wma_token", tokenHash, "wma_"⟩

/-- A code registered and used to enroll a server. -/
def sampleEnrollment : List CredentialCall :=
  [⟨.upsertAPIKey sampleCode, 1767225600, fun _ => none⟩,
    ⟨.completeEnrollment (sampleRequest "token-1"), 1767225601, fun _ => none⟩]

theorem credentials_sound_sample :
    (credentials sampleEnrollment).apiKeys.map (fun k => (k.keyHash, k.uses))
        = [("code", 1), ("token-1", 0)]
      ∧ ((credentials sampleEnrollment).apiKeys.filter (APIKey.activeFor "t_a" "srv-1")).length
        ≤ 1 := by
  refine ⟨by decide +kernel, ?_⟩
  refine (credentials_sound sampleEnrollment ⟨?_, ?_, trivial⟩).2.1 "t_a" "srv-1" (by decide)
  · exact fun _ _ k hk => absurd hk List.not_mem_nil
  · exact fun _ h => nomatch h

end WMonitor
