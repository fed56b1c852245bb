import WMonitor.Issuance
import WMonitor.Proofs.Credentials

/-!
# Issuing fails closed

Whatever becomes of the audit, a request that issues credentials ends in one of two ways: it succeeds,
and one event of the credential's tenant is in the audit log, or it is refused, and no credential is
valid and no session is open that was not before. The one exception is an enrollment that is answered
again from its handshake: the tenant in the handshake need not be that of the credential any more.
-/

namespace WMonitor

/-! ## Valid rows -/

/-- The rows that are valid now and were not before satisfy `p`. -/
def ValidFrom (p : APIKey → Bool) (db db' : CredentialDB) : Prop :=
  ∀ k' ∈ db'.apiKeys, k'.revokedAt = 0 →
    p k' = true ∨ ∃ k ∈ db.apiKeys, k.keyHash = k'.keyHash ∧ k.revokedAt = 0

/-- The row with the hash is one of the tenant. -/
def CredentialDB.OwnedBy (db : CredentialDB) (hash tenant : String) : Prop :=
  ∃ k, Table.lookup (·.keyHash) hash db.apiKeys = some k ∧ k.tenantID = tenant

section Rows

variable {p : APIKey → Bool} {db db' : CredentialDB} {now : ℤ}

theorem ValidFrom.of_eq (h : db' = db) : ValidFrom p db db' :=
  fun k' hk' hlive => .inr ⟨k', h ▸ hk', rfl, hlive⟩

theorem ValidFrom.later {g : APIKey → APIKey} {new : List APIKey} (hg : ∀ k : APIKey, k.Later (g k))
    (hkeys : db'.apiKeys = db.apiKeys.map g ++ new) (hnew : ∀ k ∈ new, p k = true) :
    ValidFrom p db db' := by
  intro k' hk' hlive
  rw [hkeys, List.mem_append, List.mem_map] at hk'
  rcases hk' with ⟨k, hk, rfl⟩ | hk'
  · refine .inr ⟨k, hk, (hg k).keyHash.symm, ?_⟩
    by_contra hrevoked
    exact hrevoked (((hg k).revoked hrevoked).symm.trans hlive)
  · exact .inl (hnew k' hk')

theorem revoke_apiKeys (p : APIKey → Bool) (now : ℤ) (db : CredentialDB) :
    (db.revoke (fun _ => none) p now).1.apiKeys = (db.revokeWhere p now).apiKeys := by
  simp only [CredentialDB.revoke, Driver.exec]
  split_ifs
  · rfl
  · rfl

/-- Revoking what satisfies `p` leaves nothing new. -/
theorem ValidFrom.revoke (h : ValidFrom p db db') (hnow : now ≠ 0) :
    ValidFrom (fun _ => false) db (db'.revoke (fun _ => none) p now).1 := by
  intro k'' hk'' hlive
  rw [revoke_apiKeys, revokeWhere_apiKeys, List.mem_map] at hk''
  obtain ⟨k', hk', rfl⟩ := hk''
  unfold revokeRow at hlive ⊢
  split_ifs at hlive ⊢ with hp
  · exact absurd hlive hnow
  · rcases h k' hk' hlive with hnew | hold
    · exact absurd (by simp [hnew, hlive]) hp
    · exact .inr hold

/-- A row that was appended is found by its hash. -/
theorem lookup_fresh {t : List APIKey} {k : APIKey} (hkeys : db.apiKeys = t ++ [k])
    (hfresh : ∀ k' ∈ t, k.clash k' = false) :
    Table.lookup (·.keyHash) k.keyHash db.apiKeys = some k := by
  have hnone : Table.lookup (·.keyHash) k.keyHash t = none :=
    Table.lookup_eq_none.mpr fun k' hk' => clash_hash (hfresh k' hk')
  rw [hkeys, Table.lookup_append, hnone, if_pos rfl]
  rfl

end Rows

/-- A registration: what is new has the hash. -/
theorem upsertAPIKey_validFrom {io : Driver} {r : APIKeyRecord} {now : ℤ} {db db' : CredentialDB}
    (h : db.upsertAPIKey io r now = (db', .ok ())) : ValidFrom (·.keyHash = r.keyHash) db db' := by
  rcases upsertAPIKey_cases io r now db with ⟨e, he⟩ | ⟨db'', he, -, ⟨-, hkeys⟩ | ⟨-, hkeys⟩⟩
  · rw [he] at h
    cases h
  · rw [he] at h
    cases h
    exact ValidFrom.later APIKey.Later.refl (by rw [hkeys, List.map_id']) (by simp [APIKeyRecord.row])
  · rw [he] at h
    cases h
    intro k' hk' hlive
    rw [hkeys, Table.mem_update] at hk'
    obtain ⟨x, hx, rfl⟩ := hk'
    split_ifs at hlive ⊢ with hsame
    · exact .inl (by simp [APIKeyRecord.overwrite, APIKeyRecord.row])
    · exact .inr ⟨x, hx, rfl, hlive⟩

/-- The row with the hash is as it was registered, but for what a registration does not write. -/
theorem upsertAPIKey_stored {io : Driver} {r : APIKeyRecord} {now : ℤ} {db db' : CredentialDB}
    (h : db.upsertAPIKey io r now = (db', .ok ())) :
    ∃ k, Table.lookup (·.keyHash) r.keyHash db'.apiKeys = some k
      ∧ k = { r.row now with id := k.id, uses := k.uses, createdAt := k.createdAt,
                             lastSeenAt := k.lastSeenAt, revokedAt := k.revokedAt } := by
  rcases upsertAPIKey_cases io r now db with
    ⟨e, he⟩ | ⟨db'', he, -, ⟨hfresh, hkeys⟩ | ⟨⟨k, hk, hhash⟩, hkeys⟩⟩
  · rw [he] at h
    cases h
  · rw [he] at h
    cases h
    exact ⟨_, lookup_fresh hkeys hfresh, rfl⟩
  · rw [he] at h
    cases h
    have hsame : ∀ k : APIKey, decide (k.keyHash = r.keyHash) = true →
        (r.overwrite now k).keyHash = k.keyHash := fun k hk => (of_decide_eq_true hk).symm
    have hlookup := Table.lookup_update hsame db.apiKeys r.keyHash
    rcases hfound : Table.lookup (·.keyHash) r.keyHash db.apiKeys with _ | x
    · exact absurd hhash (Table.lookup_eq_none.mp hfound k hk)
    · have hx := (Table.lookup_mem hfound).2
      rw [hfound, Option.map_some, if_pos (decide_eq_true hx)] at hlookup
      exact ⟨r.overwrite now x, hkeys ▸ hlookup, rfl⟩

theorem upsertAPIKey_ownedBy {io : Driver} {r : APIKeyRecord} {now : ℤ} {db db' : CredentialDB}
    (h : db.upsertAPIKey io r now = (db', .ok ())) : db'.OwnedBy r.keyHash r.tenantID := by
  obtain ⟨k, hk, hrow⟩ := upsertAPIKey_stored h
  exact ⟨k, hk, by rw [hrow]; rfl⟩

theorem upsertAPIKey_hash_ne {io : Driver} {r : APIKeyRecord} {now : ℤ} {db db' : CredentialDB}
    (h : db.upsertAPIKey io r now = (db', .ok ())) : r.keyHash ≠ "" := by
  intro hempty
  have hbody := Table.transact_ok h
  unfold upsert at hbody
  exact (Table.ok_of_guard hbody).1 (by simp [hempty])

/-- An enrollment: what is new is the agent's, and the row with the token's hash has the tenant. -/
theorem Issues.validFrom {req : EnrollmentRequest} {now : ℤ} {code : APIKey} {db db' : CredentialDB}
    {r : EnrollmentResult} (h : Issues req now code db db' r) :
    ValidFrom (fun k => k.tenantID = r.tenantID && k.serverID = req.serverID && k.kind = kindAgent)
      db db' := by
  have hkeys := h.keys
  rw [revokeWhere_apiKeys, countUse_apiKeys, List.map_map] at hkeys
  refine ValidFrom.later (fun k => ?_) hkeys ?_
  · exact (countRow_later _ _ k).trans (revokeRow_later _ _ _)
  · simp [h.result, EnrollmentRequest.row]

theorem Issues.ownedBy {req : EnrollmentRequest} {now : ℤ} {code : APIKey} {db db' : CredentialDB}
    {r : EnrollmentResult} (h : Issues req now code db db' r) :
    db'.OwnedBy req.tokenHash r.tenantID := by
  rw [h.result]
  exact ⟨_, lookup_fresh h.keys h.fresh, rfl⟩

/-- A rotation. -/
theorem replaceAgent_issues {tenant server token tokenHash pfx : String} {now : ℤ}
    {io : Driver} {db db' : CredentialDB} {r : EnrollmentResult}
    (h : db.replaceAgent io tenant server token tokenHash pfx now = (db', .ok r)) :
    tokenHash ≠ "" ∧ r.tenantID = tenant ∧ r.token = token
      ∧ ValidFrom (·.keyHash = tokenHash) db db' ∧ db'.OwnedBy tokenHash tenant := by
  have hbody := Table.transact_ok h
  unfold replace at hbody
  have hhash : tokenHash ≠ "" := fun hempty => (Table.ok_of_guard hbody).1 (by simp [hempty])
  rcases replaceAgent_cases io tenant server token tokenHash pfx now db with
    ⟨e, he⟩ | ⟨db'', r', name, he, -, hfresh, hkeys, -, rfl⟩
  · rw [he] at h
    cases h
  · rw [he] at h
    cases h
    refine ⟨hhash, rfl, rfl, ?_, _, lookup_fresh hkeys hfresh, rfl⟩
    refine ValidFrom.later (revokeRow_later (APIKey.activeFor tenant server) now) hkeys ?_
    simp [replacementRow]

/-! ## Sessions -/

namespace SessionStore

theorem scan_entries (now : ℤ) (credHash : String) (order : List (RangeMap.Entry String SessionEntry))
    (s : Scan) : ∀ e ∈ (order.foldl (scanStep now credHash) s).m.entries, e ∈ s.m.entries := by
  induction order generalizing s with
  | nil => exact fun e he => he
  | cons x order ih =>
    intro e he
    have hstep := ih (scanStep now credHash s x) e he
    unfold scanStep at hstep
    dsimp only at hstep
    split_ifs at hstep
    all_goals first | exact hstep | exact (RangeMap.mem_erase_entries.mp hstep).1

/-- `put` opens no session but the one it is given. -/
theorem put_entries (st : SessionStore) (order : List (RangeMap.Entry String SessionEntry)) (now : ℤ)
    (id : String) (ent : SessionEntry) :
    ∀ e ∈ (st.put order now id ent).2.m.entries, e ∈ st.m.entries
      ∨ (e = ⟨id, ent⟩ ∧ (st.put order now id ent).1 = true) := by
  have hscan := scan_entries now ent.credHash order ⟨st.m, "", zeroTime, 0⟩
  unfold put
  dsimp only
  generalize order.foldl (scanStep now ent.credHash) ⟨st.m, "", zeroTime, 0⟩ = scanned at hscan ⊢
  have hkept : ∀ e ∈ (if scanned.count ≥ maxCredentialSessions then scanned.m.erase scanned.oldest
      else scanned.m).entries, e ∈ st.m.entries := by
    intro e he
    split_ifs at he
    · exact hscan e (RangeMap.mem_erase_entries.mp he).1
    · exact hscan e he
  generalize (if scanned.count ≥ maxCredentialSessions then scanned.m.erase scanned.oldest
    else scanned.m) = m at hkept ⊢
  intro e he
  split_ifs at he ⊢ with hfull
  · exact .inl (hkept e he)
  · rw [AList.entries_insert, List.mem_cons] at he
    rcases he with rfl | he
    · exact .inr ⟨rfl, rfl⟩
    · exact .inl (hkept e (List.kerase_sublist _ _ |>.subset he))

/-- The session that is found under the new id is the new one. -/
theorem put_lookup {st st' : SessionStore} {order : List (RangeMap.Entry String SessionEntry)} {now : ℤ}
    {id : String} {ent : SessionEntry} (h : st.put order now id ent = (true, st')) :
    st'.m.lookup id = some ent := by
  unfold put at h
  dsimp only at h
  split_ifs at h
  · cases h
  · cases h
    exact AList.lookup_insert _
  · cases h
  · cases h
    exact AList.lookup_insert _

end SessionStore

/-! ## Handlers -/

/-- No call of the store fails. -/
def Occasion.Smooth (o : Occasion) : Prop := ∀ n, o.io n = fun _ => none

theorem Occasion.healthy_smooth (o : Occasion) : o.healthy.Smooth := fun _ => rfl

namespace Server

open Handler

/-- No credential is valid and no session is open that was not before. -/
structure NoneNew (s s' : Server) : Prop where
  keys : ValidFrom (fun _ => false) s.db.credentials s'.db.credentials
  sessions : ∀ e ∈ s'.sessions.m.entries, e ∈ s.sessions.m.entries

/-- The database is as before, and no session is new. -/
structure Quiet (s s' : Server) : Prop where
  db : s'.db = s.db
  sessions : ∀ e ∈ s'.sessions.m.entries, e ∈ s.sessions.m.entries

theorem Quiet.refl (s : Server) : Quiet s s := ⟨rfl, fun _ he => he⟩

theorem Quiet.noneNew {s s' : Server} (h : Quiet s s') : NoneNew s s' :=
  ⟨.of_eq (by rw [h.db]), h.sessions⟩

/-- The credential that is handed out, or the session's, is one of the tenant. -/
def BelongsTo (K : KeyTexts) (tenant : String) (s : Server) : Issued → Prop
  | .agent token _ _ => s.db.credentials.OwnedBy (K.hashAPIKey token) tenant
  | .code code _ _ _ _ => s.db.credentials.OwnedBy (K.hashEnrollCode code) tenant
  | .client _ _ readToken => s.db.credentials.OwnedBy (K.hashAPIKey readToken) tenant
  | .session id _ _ _ => ∀ ent, s.sessions.m.lookup id = some ent → ent.principal.tenantID = tenant

/-- If it succeeds, one event of the credential's tenant is appended to the audit log; if not, nothing is
new. -/
def FailsClosed (K : KeyTexts) (s : Server) (m : ServerM Issued) : Prop :=
  m.wp (NoneNew s) (fun issued s' => ∃ event, s'.db.audit = s.db.audit ++ [event]
    ∧ BelongsTo K event.row.tenantID s' issued) s

section Steps

variable {K : KeyTexts} {o : Occasion} {s s₀ : Server}

theorem random_wp {α : Type} {n : ℕ} {e : Refusal} {f : List UInt8 → α} {stops : Server → Prop}
    {returns : α → Server → Prop} (hstops : stops s) (h : ∀ a, returns a s) :
    (random o n e f).wp stops returns s := by
  unfold random
  rcases o.rand n with _ | buf
  · exact wp_refused hstops
  · exact wp_returned (h (f buf))

theorem random_bind {α β : Type} {n : ℕ} {e : Refusal} {f : List UInt8 → α} {g : α → ServerM β}
    {stops : Server → Prop} {returns : β → Server → Prop} (hstops : stops s)
    (h : ∀ a, (g a).wp stops returns s) : (random o n e f >>= g).wp stops returns s := by
  rw [wp_bind]
  exact random_wp hstops h

theorem needKeys_bind {β : Type} {e : Refusal} {g : Unit → ServerM β}
    {stops : Server → Prop} {returns : β → Server → Prop} (hstops : stops s)
    (h : (g ()).wp stops returns s) : (needKeys e >>= g).wp stops returns s := by
  rw [wp_bind]
  simp only [needKeys, wp_bind, wp_read, wp_refuseIf]
  exact ⟨fun _ => hstops, fun _ => h⟩

theorem actorPrefix_bind {β : Type} {n : ℕ} {kind credHash : String} {g : String → ServerM β}
    {stops : Server → Prop} {returns : β → Server → Prop}
    (h : ∀ pfx, (g pfx).wp stops returns s) :
    (actorPrefix o n kind credHash >>= g).wp stops returns s := by
  rw [wp_bind]
  unfold actorPrefix
  rw [wp_bind, wp_read]
  split
  · exact wp_returned (h kind)
  split
  · exact wp_returned (h kind)
  split
  · exact wp_returned (h kind)
  · exact wp_returned (h _)

/-- An event that is not valid is not appended. -/
theorem appendAudit_cases (ev : AuditEvent) (now : ℤ) (db : Database) :
    (∃ e, db.appendAudit ev now = (db, .error e))
      ∨ ∃ event n, event.row.tenantID = ev.tenantID
        ∧ db.appendAudit ev now = ({ db with audit := db.audit ++ [event], lastAuditID := n }, .ok ()) := by
  unfold Database.appendAudit
  rcases ev.validate with e | _
  · exact .inl ⟨e, rfl⟩
  · exact .inr ⟨_, _, rfl, rfl⟩

/-- An audit succeeds with one new event, or the credential is taken back. -/
theorem audited_bind {β : Type} {n : ℕ} {ev : AuditEvent} {takeBack : ServerM Unit}
    {g : Unit → ServerM β} {stops : Server → Prop} {returns : β → Server → Prop}
    (hback : ∀ s', s'.db.credentials = s.db.credentials → s'.sessions = s.sessions →
      takeBack.wp stops (fun _ => stops) s')
    (h : ∀ s' event, s'.db.credentials = s.db.credentials → s'.sessions = s.sessions →
      s'.db.audit = s.db.audit ++ [event] → event.row.tenantID = ev.tenantID →
      (g ()).wp stops returns s') :
    (audited o n ev takeBack >>= g).wp stops returns s := by
  have hrefused : ∀ s', s'.db.credentials = s.db.credentials → s'.sessions = s.sessions →
      (takeBack >>= fun _ => refuse ⟨503, "audit unavailable"⟩ : ServerM Unit).wp stops
        (fun a => (g a).wp stops returns) s' := by
    intro s' hcred hsess
    rw [wp_bind]
    exact wp_mono _ (hback s' hcred hsess) (fun _ h => h) fun _ _ h => wp_refused h
  rw [wp_bind]
  unfold audited recordAudit
  rw [wp_bind, wp_call]
  rcases appendAudit_cases ev (o.clock n) s.db with ⟨e, he⟩ | ⟨event, last, htenant, he⟩
  · rcases o.audit with _ | _ | _
    all_goals
      simp only [he]
      exact hrefused _ rfl rfl
  · rcases o.audit with _ | _ | _
    · simp only [he]
      exact wp_returned (h _ event rfl rfl rfl htenant)
    · exact hrefused _ rfl rfl
    · simp only [he]
      exact hrefused _ rfl rfl

theorem get_quiet (id : String) (now : ℤ) :
    Quiet s { s with sessions := (s.sessions.get now id).2 } := by
  refine ⟨rfl, fun e he => ?_⟩
  simp only [SessionStore.get] at he
  split at he
  · split_ifs at he
    · exact he
    · exact (RangeMap.mem_erase_entries.mp he).1
  · exact (RangeMap.mem_erase_entries.mp he).1

theorem Quiet.delete (h : Quiet s₀ s) (id : String) :
    Quiet s₀ { s with sessions := s.sessions.delete id } :=
  ⟨h.db, fun e he => h.sessions e (RangeMap.mem_erase_entries.mp he).1⟩

theorem lookupSession_quiet (n : ℕ) (cookie : Option String) :
    (lookupSession o n cookie).wp (Quiet s) (fun _ => Quiet s) s := by
  unfold lookupSession
  split
  · exact wp_returned (.refl s)
  split
  · exact wp_returned (.refl s)
  rw [wp_bind, wp_call]
  split
  · exact wp_returned (get_quiet _ _)
  rw [wp_bind, wp_read]
  split
  · exact wp_called ((get_quiet _ _).delete _)
  split
  · exact wp_called ((get_quiet _ _).delete _)
  · exact wp_returned (get_quiet _ _)

theorem permitted_quiet (h : Quiet s₀ s) (p : Principal) (scope : String) :
    (permitted p scope).wp (Quiet s₀) (fun _ => Quiet s₀) s :=
  wp_refuseIf_bind h fun _ => wp_returned h

/-- Authentication changes nothing but the sessions, of which it closes some. -/
theorem authPrincipal_quiet {β : Type} (r : Request β) (scope : String) :
    (authPrincipal K o r scope).wp (Quiet s) (fun _ => Quiet s) s := by
  unfold authPrincipal
  rw [wp_bind, wp_read]
  split
  · exact wp_returned (.refl s)
  refine wp_refuseIf_bind (.refl s) fun _ => wp_refuseIf_bind (.refl s) fun _ => ?_
  split
  · refine wp_bind_of (lookupSession_quiet 0 r.cookie) (fun _ h => h) fun session s' h => ?_
    split
    · exact permitted_quiet h _ _
    · exact wp_refused h
  split
  · exact wp_refuseIf_bind (.refl s) fun _ => permitted_quiet (.refl s) _ _
  rw [wp_bind, wp_read]
  split
  · exact wp_refused (.refl s)
  · exact wp_refused (.refl s)
  · exact permitted_quiet (.refl s) _ _

/-- What was issued is taken back by its hash, unless the store fails. -/
theorem revokeUnauditedHash_noneNew {db : CredentialDB} {n : ℕ} {hash : String}
    (hnew : ValidFrom (·.keyHash = hash) s₀.db.credentials db) (hhash : hash ≠ "")
    (hdb : s.db.credentials = db) (hsessions : ∀ e ∈ s.sessions.m.entries, e ∈ s₀.sessions.m.entries) :
    (revokeUnauditedHash o n hash).wp (o.Smooth → NoneNew s₀ ·) (fun _ => (o.Smooth → NoneNew s₀ ·)) s := by
  unfold revokeUnauditedHash
  rw [if_neg hhash, wp_bind, credentialCall, wp_call, wp_pure]
  intro hsmooth
  refine ⟨?_, hsessions⟩
  simp only [CredentialDB.revokeKeyHash, if_neg hhash, hdb, hsmooth n]
  exact hnew.revoke (o.past n).ne'

theorem revokeUnauditedHash_healthy {db : CredentialDB} {n : ℕ} {hash : String}
    (hnew : ValidFrom (·.keyHash = hash) s₀.db.credentials db) (hhash : hash ≠ "")
    (hdb : s.db.credentials = db) (hsessions : ∀ e ∈ s.sessions.m.entries, e ∈ s₀.sessions.m.entries) :
    (revokeUnauditedHash o.healthy n hash).wp (NoneNew s₀) (fun _ => NoneNew s₀) s :=
  wp_mono _ (revokeUnauditedHash_noneNew hnew hhash hdb hsessions) (fun _ h => h o.healthy_smooth)
    fun _ _ h => h o.healthy_smooth

end Steps

/-! ## The administrator's requests -/

section Admin

variable (K : KeyTexts) (o : Occasion) (s : Server)

theorem enrollCodeTenant_quiet {o : Occasion} {s₀ s : Server} (h : Quiet s₀ s) (req : EnrollCodeBody) :
    (enrollCodeTenant K o req).wp (Quiet s₀) (fun _ => Quiet s₀) s := by
  have hnamed : (namedTenant K o req).wp (Quiet s₀) (fun _ => Quiet s₀) s := by
    unfold namedTenant
    split
    · exact wp_returned h
    rw [wp_bind, wp_read]
    split
    · exact wp_refused h
    split
    · exact wp_refused h
    · exact wp_returned h
  refine wp_bind_of hnamed (fun _ h => h) fun tenantID s' h => ?_
  split
  · exact random_wp h fun _ => h
  · exact wp_returned h

theorem handleAdminEnrollCodes_spec (r : Request EnrollCodeBody) :
    (handleAdminEnrollCodes K o r).wp (o.Smooth → NoneNew s ·) (fun issued s' =>
      ∃ req tenantID code event, r.body = some req
        ∧ issued = .code code (trimmed req.clientName) tenantID (unix (o.clock 4 + req.lifetime)) req.uses
        ∧ s.db.credentials.upsertAPIKey (o.io 5) (enrollCodeRecord K o req tenantID code)
            (unix (o.clock 6)) = (s'.db.credentials, .ok ())
        ∧ s'.db.audit = s.db.audit ++ [event] ∧ event.row.tenantID = tenantID) s := by
  have hquiet {s' : Server} : Quiet s s' → o.Smooth → NoneNew s s' := fun h _ => h.noneNew
  unfold handleAdminEnrollCodes
  refine wp_refuseIf_bind (hquiet (.refl s)) fun _ => ?_
  refine wp_bind_of (authPrincipal_quiet r scopeAdmin) (fun _ => hquiet) fun principal s₁ h₁ => ?_
  refine needKeys_bind (hquiet h₁) (wp_require_bind (hquiet h₁) fun req hreq => ?_)
  refine wp_refuseIf_bind (hquiet h₁) fun _ => ?_
  refine wp_bind_of (enrollCodeTenant_quiet K h₁ req) (fun _ => hquiet) fun tenantID s₂ h₂ => ?_
  refine random_bind (hquiet h₂) fun code => ?_
  rw [wp_bind, credentialCall, wp_call]
  rcases hstored : s₂.db.credentials.upsertAPIKey (o.io 5) (enrollCodeRecord K o req tenantID code)
      (unix (o.clock 6)) with ⟨db', e | _⟩
  · exact wp_refused fun _ => ⟨.of_eq (by rw [(Table.transact_error hstored).1, h₂.db]), h₂.sessions⟩
  · rw [h₂.db] at hstored
    refine actorPrefix_bind fun actor => audited_bind (fun s' hcred hsess => ?_)
      fun s' event hcred hsess haudit htenant => ?_
    · exact revokeUnauditedHash_noneNew (upsertAPIKey_validFrom hstored) (upsertAPIKey_hash_ne hstored)
        hcred (hsess ▸ h₂.sessions)
    · exact wp_returned ⟨req, tenantID, code, event, hreq, rfl, hcred ▸ hstored, by rw [haudit, h₂.db],
        htenant⟩

theorem handleAdminEnrollCodes_failsClosed (r : Request EnrollCodeBody) :
    FailsClosed K s (handleAdminEnrollCodes K o.healthy r) := by
  refine wp_mono _ (handleAdminEnrollCodes_spec K o.healthy s r) (fun _ h => h o.healthy_smooth) ?_
  rintro _ s' ⟨req, tenantID, code, event, -, rfl, hstored, haudit, htenant⟩
  exact ⟨event, haudit, htenant ▸ upsertAPIKey_ownedBy hstored⟩

theorem handleAdminClients_failsClosed (r : Request ClientBody) :
    FailsClosed K s (handleAdminClients K o.healthy r) := by
  have hquiet {s' : Server} : Quiet s s' → NoneNew s s' := Quiet.noneNew
  unfold FailsClosed handleAdminClients
  refine wp_bind_of (authPrincipal_quiet _ scopeAdmin) (fun _ => hquiet) fun principal s₁ h₁ => ?_
  refine needKeys_bind (hquiet h₁) (wp_require_bind (hquiet h₁) fun req hreq => ?_)
  dsimp only
  refine wp_refuseIf_bind (hquiet h₁) fun _ => ?_
  rw [wp_bind, wp_read]
  split
  · exact wp_refused (hquiet h₁)
  refine wp_refuseIf_bind (hquiet h₁) fun _ => wp_refuseIf_bind (hquiet h₁) fun _ => ?_
  refine random_bind (hquiet h₁) fun readToken => random_bind (hquiet h₁) fun tenantID => ?_
  rw [wp_bind, credentialCall, wp_call]
  rcases hstored : s₁.db.credentials.upsertAPIKey (o.healthy.io 5)
      (clientRecord K o.healthy (trimmed req.clientName) tenantID readToken)
      (unix (o.healthy.clock 6)) with ⟨db', e | _⟩
  · exact wp_refused ⟨.of_eq (by rw [(Table.transact_error hstored).1, h₁.db]), h₁.sessions⟩
  · rw [h₁.db] at hstored
    refine actorPrefix_bind fun actor => audited_bind (fun s' hcred hsess => ?_)
      fun s' event hcred hsess haudit htenant => ?_
    · exact revokeUnauditedHash_healthy (upsertAPIKey_validFrom hstored) (upsertAPIKey_hash_ne hstored)
        hcred (hsess ▸ h₁.sessions)
    · refine wp_returned ⟨event, by rw [haudit, h₁.db], ?_⟩
      simp only [BelongsTo, htenant, hcred]
      exact upsertAPIKey_ownedBy hstored

theorem handleAdminAgentRotate_failsClosed (r : Request RotateBody) :
    FailsClosed K s (handleAdminAgentRotate K o.healthy r) := by
  have hquiet {s' : Server} : Quiet s s' → NoneNew s s' := Quiet.noneNew
  unfold FailsClosed handleAdminAgentRotate
  refine wp_refuseIf_bind (hquiet (.refl s)) fun _ => ?_
  refine wp_bind_of (authPrincipal_quiet r scopeAdmin) (fun _ => hquiet) fun principal s₁ h₁ => ?_
  refine needKeys_bind (hquiet h₁) (wp_require_bind (hquiet h₁) fun req hreq => ?_)
  dsimp only
  refine wp_refuseIf_bind (hquiet h₁) fun _ => wp_refuseIf_bind (hquiet h₁) fun _ => ?_
  refine random_bind (hquiet h₁) fun token => ?_
  rw [wp_bind, credentialCall, wp_call]
  rcases hreplaced : s₁.db.credentials.replaceAgent (o.healthy.io 4)
      (AuthState.revokeTenant principal req.tenantID) (trimmed req.serverID) token
      (K.hashAPIKey token) (K.extractKeyPrefix token) (unix (o.healthy.clock 4)) with ⟨db', e | result⟩
  · exact wp_refused ⟨.of_eq (by rw [(Table.transact_error hreplaced).1, h₁.db]), h₁.sessions⟩
  · rw [h₁.db] at hreplaced
    obtain ⟨hhash, htenantID, htoken, hnew, howned⟩ := replaceAgent_issues hreplaced
    refine actorPrefix_bind fun actor => audited_bind (fun s' hcred hsess => ?_)
      fun s' event hcred hsess haudit htenant => ?_
    · exact revokeUnauditedHash_healthy hnew hhash hcred (hsess ▸ h₁.sessions)
    · refine wp_returned ⟨event, by rw [haudit, h₁.db], ?_⟩
      simp only [BelongsTo, htenant, hcred, htenantID, htoken]
      exact howned

end Admin

/-! ## Enrollment -/

section Enroll

variable (K : KeyTexts) (o : Occasion) (s : Server)

/-- The enrollment finds the handshake of an earlier one. -/
def Recovers (r : Request EnrollBody) : Prop :=
  ∃ req h code, r.body = some req
    ∧ s.db.credentials.recoverable (K.hashEnrollCode (trimmed req.enrollCode)) (trimmed req.serverID)
        (unix (o.clock 0)) = some (h, code)

/-- An enrollment hands out a token and audits it for the tenant it names; unless it is answered from a
handshake, the credential is one of that tenant. -/
theorem handleEnroll_spec (insecure : Bool) (r : Request EnrollBody) :
    (handleEnroll K o.healthy insecure r).wp (NoneNew s) (fun issued s' =>
      ∃ token tenantID serverID event, issued = .agent token tenantID serverID
        ∧ s'.db.audit = s.db.audit ++ [event] ∧ event.row.tenantID = tenantID
        ∧ ((Recovers K o s r ∧ s'.db.credentials = s.db.credentials)
          ∨ (¬ Recovers K o s r ∧ s'.db.credentials.OwnedBy (K.hashAPIKey token) tenantID))) s := by
  have hsame : NoneNew s s := (Quiet.refl s).noneNew
  unfold handleEnroll
  refine wp_refuseIf_bind hsame fun _ => wp_refuseIf_bind hsame fun _ => ?_
  refine wp_refuseIf_bind hsame fun _ => wp_require_bind hsame fun req hreq => ?_
  dsimp only
  refine wp_refuseIf_bind hsame fun _ => wp_refuseIf_bind hsame fun _ => ?_
  refine needKeys_bind hsame (random_bind hsame fun agentToken => ?_)
  rw [wp_bind, credentialCall, wp_call]
  rcases completeEnrollment_cases (o.healthy.io 0) (enrollmentRequest K req agentToken)
      (unix (o.healthy.clock 0)) s.db.credentials with
    ⟨e, he⟩ | ⟨h, code, -, hrec, he⟩ | ⟨hrec, code, db', result, he, hissues⟩
  · rw [he]
    exact wp_refused hsame
  · rw [he]
    refine audited_bind (fun s' hcred hsess => ?_) fun s' event hcred hsess haudit htenant => ?_
    · exact wp_returned ⟨.of_eq hcred, fun e he => hsess ▸ he⟩
    · exact wp_returned ⟨_, _, _, event, rfl, haudit, htenant, .inl ⟨⟨req, h, code, hreq, hrec⟩, hcred⟩⟩
  · rw [he]
    have hfresh : ¬ result.recovered = true := by simp [hissues.result]
    have htoken : result.token = agentToken := by rw [hissues.result]; rfl
    refine audited_bind (fun s' hcred hsess => ?_) fun s' event hcred hsess haudit htenant => ?_
    · rw [if_neg hfresh, wp_bind, credentialCall, wp_call, wp_pure]
      refine ⟨?_, fun e he => hsess ▸ he⟩
      simp only [hcred]
      exact hissues.validFrom.revoke (o.past 2).ne'
    · refine wp_returned ⟨_, _, _, event, rfl, haudit, htenant, .inr ⟨?_, ?_⟩⟩
      · rintro ⟨req', h, code', hreq', hrec'⟩
        cases hreq.symm.trans hreq'
        cases hrec.symm.trans hrec'
      · rw [hcred, htoken]
        exact hissues.ownedBy

end Enroll

/-! ## Sessions -/

section Session

variable (K : KeyTexts) (o : Occasion) (s : Server)

/-- Nothing but the sessions has changed; the one session that may be new has this id and is one of the
tenant. -/
structure Opened (id tenant : String) (s s' : Server) : Prop where
  db : s'.db = s.db
  sessions : ∀ e ∈ s'.sessions.m.entries, e ∈ s.sessions.m.entries ∨ e.1 = id
  owner : ∀ ent, s'.sessions.m.lookup id = some ent → ent.principal.tenantID = tenant

theorem put_opened {id : String} {ent : SessionEntry} {sessions : SessionStore} {now : ℤ}
    {order : List (RangeMap.Entry String SessionEntry)}
    (h : s.sessions.put order now id ent = (true, sessions)) :
    Opened id ent.principal.tenantID s { s with sessions := sessions } where
  db := rfl
  sessions := by
    intro e he
    have hput := s.sessions.put_entries order now id ent e
    rw [h] at hput
    rcases hput he with hold | ⟨rfl, -⟩
    · exact .inl hold
    · exact .inr rfl
  owner := by
    intro ent' hent'
    cases (SessionStore.put_lookup h).symm.trans hent'
    rfl

theorem replaceSession_opened {s s₁ : Server} {id tenant : String} (h : Opened id tenant s s₁)
    (cookie : Option String) {stops : Server → Prop} :
    (replaceSession cookie).wp stops (fun _ => Opened id tenant s) s₁ := by
  unfold replaceSession
  split
  · exact wp_returned h
  next old =>
    refine wp_called ⟨h.db, fun e he => h.sessions e (RangeMap.mem_erase_entries.mp he).1,
      fun ent hent => h.owner ent ?_⟩
    rw [RangeMap.lookup_eq_some] at hent ⊢
    exact (RangeMap.mem_erase_entries.mp hent).1

/-- A session that is closed again leaves nothing new. -/
theorem Opened.closed {s s₁ : Server} {id tenant : String} (h : Opened id tenant s s₁)
    {s' : Server} (hcred : s'.db.credentials = s₁.db.credentials) (hsess : s'.sessions = s₁.sessions) :
    NoneNew s { s' with sessions := s'.sessions.delete id } := by
  refine ⟨.of_eq (by rw [hcred, h.db]), fun e he => ?_⟩
  obtain ⟨he, hid⟩ := RangeMap.mem_erase_entries.mp he
  rw [hsess] at he
  exact (h.sessions e he).resolve_right hid

theorem handleSession_failsClosed (r : Request SessionBody) :
    FailsClosed K s (handleSession K o.healthy r) := by
  have hsame : NoneNew s s := (Quiet.refl s).noneNew
  unfold FailsClosed handleSession
  refine wp_refuseIf_bind hsame fun _ => wp_refuseIf_bind hsame fun _ => ?_
  refine wp_refuseIf_bind hsame fun _ => wp_require_bind hsame fun req hreq => ?_
  refine wp_refuseIf_bind hsame fun _ => wp_refuseIf_bind hsame fun _ => ?_
  refine needKeys_bind hsame ?_
  dsimp only
  rw [wp_bind, wp_read]
  split
  · exact wp_refused hsame
  next rec hrec =>
  refine wp_refuseIf_bind hsame fun _ => wp_refuseIf_bind hsame fun _ => ?_
  refine random_bind hsame fun id => ?_
  rw [wp_bind, wp_call]
  rcases hput : s.sessions.put (o.healthy.order s.sessions) (o.healthy.clock 3) id
      ⟨K.hashAPIKey req.readToken, principalFromRecord rec, rec.clientName,
        sessionExpiry (o.healthy.clock 2) rec.expiresAt⟩ with ⟨stored, sessions⟩
  have hentries := s.sessions.put_entries (o.healthy.order s.sessions) (o.healthy.clock 3) id
      ⟨K.hashAPIKey req.readToken, principalFromRecord rec, rec.clientName,
        sessionExpiry (o.healthy.clock 2) rec.expiresAt⟩
  rw [hput] at hentries
  cases stored with
  | false =>
    exact wp_refuseIf_bind ⟨.of_eq rfl, fun e he => (hentries e he).resolve_right (by simp)⟩
      fun h => absurd rfl h
  | true =>
    rw [wp_bind, wp_refuseIf]
    refine ⟨fun h => absurd h (by simp), fun _ => ?_⟩
    rw [wp_bind]
    refine wp_mono _ (replaceSession_opened (put_opened s hput) r.cookie) (fun _ h => h)
      fun _ s₁ h₁ => ?_
    refine audited_bind (fun s' hcred hsess => wp_called (h₁.closed hcred hsess))
      fun s' event hcred hsess haudit htenant => wp_returned ⟨event, by rw [haudit, h₁.db], ?_⟩
    simp only [BelongsTo, hsess, htenant]
    exact h₁.owner

end Session

/-! ## All requests -/

/-- An enrollment that succeeds and is answered from a handshake is answered for the tenant of its
credential. -/
def RecoversOwn (K : KeyTexts) (o : Occasion) (s : Server) (insecure : Bool) (r : Request EnrollBody) :
    Prop :=
  ∀ token tenantID serverID s', handleEnroll K o insecure r s = (.ok (.agent token tenantID serverID), s') →
    Recovers K o s r → s.db.credentials.OwnedBy (K.hashAPIKey token) tenantID

theorem handleEnroll_failsClosed_iff (K : KeyTexts) (o : Occasion) (s : Server) (insecure : Bool)
    (r : Request EnrollBody) :
    FailsClosed K s (handleEnroll K o.healthy insecure r)
      ↔ RecoversOwn K o.healthy s insecure r := by
  have hspec := handleEnroll_spec K o s insecure r
  unfold FailsClosed RecoversOwn
  rcases hresult : handleEnroll K o.healthy insecure r s with ⟨e | issued, s'⟩
  · rw [wp_of_eq_error hresult] at hspec ⊢
    refine iff_of_true hspec ?_
    rintro _ _ _ _ ⟨⟩
  rw [wp_of_eq_ok hresult] at hspec ⊢
  obtain ⟨token, tenantID, serverID, event, rfl, haudit, rfl, ⟨hrec, hcred⟩ | ⟨hfresh, howned⟩⟩ := hspec
  · constructor
    · rintro ⟨event', haudit', howned⟩ _ _ _ _ ⟨⟩ -
      rw [haudit] at haudit'
      cases List.append_cancel_left haudit'
      exact hcred ▸ howned
    · intro h
      refine ⟨event, haudit, ?_⟩
      rw [BelongsTo, hcred]
      exact h token _ serverID s' rfl hrec
  · refine iff_of_true ⟨event, haudit, howned⟩ ?_
    rintro _ _ _ _ ⟨⟩ hrec
    exact absurd hrec hfresh

/-- Texts are their own hashes. -/
def plainTexts : KeyTexts := ⟨id, id, id⟩

/-- Everything goes well, at one time. -/
def smoothly : Occasion where
  clock _ := 1000 * second
  past _ := by decide
  rand _ := .ok (List.replicate 32 0)
  io _ _ := none
  audit := .none
  order st := st.m.entries

def migration : Migration where
  backupDir := "backup"
  backup := .ok "backup/zeus.db"
  random _ := .ok (List.replicate 16 0)
  order := id
  io _ := none
  bytes := by
    rintro n buf ⟨⟩
    rfl
  perm ids := .refl ids

/-- A request of an administrator. -/
def adminRequest {β : Type} (body : β) : Request β where
  method := "POST"
  https := true
  loopback := false
  sameOrigin := true
  limited := false
  apiKeyQuery := ""
  apiKey := "wmk_admin"
  cookie := none
  cached := some ⟨⟨"admin", "", "", kindAdmin, scopeAdmin, zeroTime⟩, true, zeroTime, 0⟩
  body := some body

def codeRequest : Request EnrollCodeBody := adminRequest ⟨"Acme", "acme", 0, 0⟩

def enrollRequest : Request EnrollBody := adminRequest ⟨"WM-0000-0000-0000", "srv-1", ""⟩

/-- An enrollment code for the tenant `acme`, an enrollment with it, and then the migration. -/
def migrated : Server :=
  let s : Server := ⟨true, .empty, newSessionStore⟩
  let s := (serve plainTexts smoothly (.enrollCode codeRequest) s).2
  let s := (serve plainTexts smoothly (.enroll false enrollRequest) s).2
  { s with db := (s.db.migrateOpaqueTenants migration).1 }

end Server

end WMonitor
