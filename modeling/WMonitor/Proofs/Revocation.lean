import WMonitor.Proofs.OpaqueTenant

/-!
# A revocation is for good

Every call on the credential store, and the migration of the tenants, keeps the rows of `api_keys`
under their hashes and leaves the revocation of a revoked one as it is. So the hash of a revoked row
never resolves again and no use of it is counted, whatever comes after.
-/

namespace WMonitor

/-- The row of the hash is there, revoked at `time`, and it is the only one of the hash. -/
structure RevokedAt (keyHash : String) (time : ℤ) (db : CredentialDB) : Prop where
  hashes : (db.apiKeys.map (·.keyHash)).Nodup
  row : ∃ k ∈ db.apiKeys, k.keyHash = keyHash ∧ k.revokedAt = time
  revoked : time ≠ 0

namespace RevokedAt

variable {keyHash : String} {time : ℤ} {db : CredentialDB}

theorem unique (h : RevokedAt keyHash time db) {k : APIKey} (hk : k ∈ db.apiKeys)
    (hh : k.keyHash = keyHash) : k.revokedAt = time := by
  obtain ⟨k', hk', hh', hr⟩ := h.row
  rw [List.inj_on_of_nodup_map h.hashes hk hk' (hh.trans hh'.symm), hr]

/-- A call revokes only rows that are not revoked yet, and a registration keeps the revocation. -/
theorem step (h : RevokedAt keyHash time db) (c : CredentialCall) :
    RevokedAt keyHash time (db.step c) := by
  obtain ⟨k, hk, hh, hr⟩ := h.row
  obtain ⟨k', hk', hh', hkept, hlater⟩ := step_row (c := c) hk
  refine ⟨step_hashes h.hashes, ⟨k', hk', hh'.trans hh, ?_⟩, h.revoked⟩
  rw [← hr] at h ⊢
  by_cases hup : ∃ r, c.op = .upsertAPIKey r
  · obtain ⟨r, hop⟩ := hup
    exact hkept (by simp [CredentialCall.revokes, hop])
  · exact (hlater fun r hop => absurd ⟨r, hop⟩ hup).revoked h.revoked

theorem of_keys {db' : CredentialDB} {f : APIKey → APIKey} (h : RevokedAt keyHash time db)
    (hkeys : db'.apiKeys = db.apiKeys.map f) (hh : ∀ k, (f k).keyHash = k.keyHash)
    (hr : ∀ k, (f k).revokedAt = k.revokedAt) : RevokedAt keyHash time db' := by
  obtain ⟨k, hk, hkh, hkr⟩ := h.row
  refine ⟨?_, ⟨f k, ?_, (hh k).trans hkh, (hr k).trans hkr⟩, h.revoked⟩
  · rw [hkeys, List.map_map, show (fun k : APIKey => k.keyHash) ∘ f = (·.keyHash) from funext hh]
    exact h.hashes
  · rw [hkeys]
    exact List.mem_map_of_mem hk

/-- The migration fails and changes nothing, or changes the tenants of the rows. -/
theorem migrate {db : Database} (h : RevokedAt keyHash time db.credentials) (m : Migration) :
    RevokedAt keyHash time (db.migrateOpaqueTenants m).1.credentials := by
  rcases hm : db.migrateOpaqueTenants m with ⟨db', e | report⟩
  · rw [Database.migrate_error hm]
    exact h
  · obtain ⟨bufs, -, -, rfl⟩ := Database.migrate_ok hm
    exact h.of_keys rfl (fun _ => rfl) (fun _ => rfl)

theorem run {db : Database} (h : RevokedAt keyHash time db.credentials)
    (steps : List IdentityStep) :
    RevokedAt keyHash time (Run.run Database.identityStep db steps).credentials := by
  induction steps generalizing db with
  | nil => exact h
  | cons s steps ih =>
    refine ih ?_
    cases s with
    | call c => exact h.step c
    | migrate m => exact h.migrate m

theorem not_resolved (h : RevokedAt keyHash time db) (io : Driver) (now : ℤ) (rec : APIKeyRecord) :
    db.resolveAPIKey io keyHash now ≠ .ok rec := by
  intro hres
  obtain ⟨k, hk, hh, -, hr, -⟩ := resolveAPIKey_ok hres
  exact h.revoked ((h.unique hk hh).symm.trans hr)

/-- An enrollment or a consumption counts a use only of a code that is not revoked. -/
theorem not_used (h : RevokedAt keyHash time db) (c : CredentialCall) :
    c.uses keyHash db = false := by
  by_contra huse
  obtain ⟨k, hk, hh, hr⟩ := uses_mem (by simpa using huse)
  exact h.revoked ((h.unique hk hh).symm.trans hr)

end RevokedAt

/-- Once a row is revoked, no later calls change when it was revoked, make its hash resolve or count
a use of it. -/
theorem revoked_for_good (db : Database)
    (hn : (db.credentials.apiKeys.map (·.keyHash)).Nodup) (k : APIKey)
    (hk : k ∈ db.credentials.apiKeys) (hr : k.revokedAt ≠ 0) (steps : List IdentityStep) :
    let db' := (Run.run Database.identityStep db steps).credentials
    (∃ k' ∈ db'.apiKeys, k'.keyHash = k.keyHash)
      ∧ (∀ k' ∈ db'.apiKeys, k'.keyHash = k.keyHash → k'.revokedAt = k.revokedAt)
      ∧ (∀ io now rec, db'.resolveAPIKey io k.keyHash now ≠ .ok rec)
      ∧ ∀ c : CredentialCall, c.uses k.keyHash db' = false := by
  have h : RevokedAt k.keyHash k.revokedAt db.credentials := ⟨hn, ⟨k, hk, rfl, rfl⟩, hr⟩
  have h' := h.run steps
  obtain ⟨k', hk', hh, -⟩ := h'.row
  exact ⟨⟨k', hk', hh⟩, fun k' hk' hh => h'.unique hk' hh, h'.not_resolved, h'.not_used⟩

/-- The revoked token registered anew, its agent enrolled again and the tenants migrated. -/
def sampleAttempts : List IdentityStep :=
  [.call ⟨.upsertAPIKey { sampleCode with keyHash := "token-1", kind := kindAgent }, 1767225603,
      fun _ => none⟩,
    .call ⟨.completeEnrollment (sampleRequest "token-2"), 1767225604, fun _ => none⟩,
    .migrate (sampleMigration 9)]

theorem revoked_for_good_sample :
    ∃ k ∈ (credentials sampleRevoked).apiKeys, k.keyHash = "token-1" ∧ k.revokedAt = 1767225602
      ∧ ∀ k' ∈ (Run.run Database.identityStep
          { Database.empty with credentials := credentials sampleRevoked }
          sampleAttempts).credentials.apiKeys,
        k'.keyHash = "token-1" → k'.revokedAt = 1767225602 := by
  obtain ⟨k, hk, hh, hr⟩ : ∃ k ∈ (credentials sampleRevoked).apiKeys,
      k.keyHash = "token-1" ∧ k.revokedAt = 1767225602 := by decide +kernel
  obtain ⟨-, hkept, -⟩ := revoked_for_good
    { Database.empty with credentials := credentials sampleRevoked } (by decide +kernel) k hk
    (by rw [hr]; decide) sampleAttempts
  exact ⟨k, hk, hh, hr, fun k' hk' hh' => (hkept k' hk' (hh'.trans hh.symm)).trans hr⟩

end WMonitor
