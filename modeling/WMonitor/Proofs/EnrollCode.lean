import WMonitor.Proofs.Issuance
import WMonitor.Proofs.Handshake

/-!
# How long an enrollment code lives

The lifetime of a code is a product of 64 bit integers, in nanoseconds. As long as the product does not
wrap around, a code that was issued can be used for as many hours as the request says; otherwise its
expiry is a time before 1970 or far too early, and the code may be dead when it is handed out.
-/

namespace WMonitor

/-! ## What makes an enrollment find its code -/

theorem bind_ne_error {ε α β : Type} {x : Except ε α} {f : α → Except ε β} {e : ε}
    (hx : x ≠ .error e) (hf : ∀ a, f a ≠ .error e) : x >>= f ≠ .error e := by
  rcases x with e' | a
  · exact fun h => hx (by cases h; rfl)
  · exact hf a

theorem guard_ne_error {ε α β : Type} {c : Prop} [Decidable c] {e e' : ε} {f : α → Except ε β}
    {x : Except ε β} (he : c → e' ≠ e) (hx : x ≠ .error e) :
    (if c then (throw e' : Except ε α) >>= f else x) ≠ .error e := by
  split_ifs with hc
  · exact fun h => he hc (by cases h; rfl)
  · exact hx

theorem exec_ne_notFound (io : Driver) (n : ℕ) : io.exec n ≠ .error .apiKeyNotFound := by
  unfold Driver.exec
  split
  · exact fun h => nomatch h
  · exact fun h => nomatch h

theorem grant_ne_notFound (io : Driver) (req : EnrollmentRequest) (code : APIKey)
    (active : List String) (now : ℤ) (db : CredentialDB) :
    grant io req code active now db ≠ .error .apiKeyNotFound := by
  unfold grant
  refine bind_ne_error (exec_ne_notFound io 8) fun _ => ?_
  split
  · exact fun h => nomatch h
  refine bind_ne_error (exec_ne_notFound io 9) fun _ => ?_
  refine bind_ne_error (exec_ne_notFound io 10) fun _ => ?_
  refine bind_ne_error (exec_ne_notFound io 11) fun _ => ?_
  exact fun h => nomatch h

/-- The row of a code that an enrollment may still use. -/
structure Enrollable (codeHash : String) (now : ℤ) (k : APIKey) : Prop where
  hash : k.keyHash = codeHash
  kind : k.kind = kindEnroll
  live : k.revokedAt = 0
  early : now < k.expiresAt
  room : k.uses < k.maxUses

theorem Enrollable.usable {codeHash : String} {now : ℤ} {k : APIKey} (h : Enrollable codeHash now k) :
    CredentialDB.usable codeHash now k = true := by
  simp [CredentialDB.usable, h.hash, h.kind, h.live, h.early, h.room]

theorem Enrollable.not_spent {codeHash : String} {now : ℤ} {k : APIKey}
    (h : Enrollable codeHash now k) : k.spent now = false := by
  have hearly := h.early
  have hroom := h.room
  simp only [APIKey.spent, h.live, ne_eq, not_true_eq_false, decide_false, Bool.false_or,
    Bool.or_eq_false_iff, Bool.and_eq_false_iff, decide_eq_false_iff_not]
  exact ⟨.inr (by omega), .inr (by omega)⟩

/-- A row that has its hash alone is the only one that a predicate on the hash picks out. -/
theorem filter_unique {db : CredentialDB} {p : APIKey → Bool} {k : APIKey}
    (hn : (db.apiKeys.map (·.keyHash)).Nodup) (hk : k ∈ db.apiKeys) (hp : p k = true)
    (honly : ∀ k', p k' = true → k'.keyHash = k.keyHash) : db.apiKeys.filter p = [k] := by
  have hmem : k ∈ db.apiKeys.filter p := List.mem_filter.mpr ⟨hk, hp⟩
  have hall : ∀ k' ∈ db.apiKeys.filter p, k' = k := by
    intro k' hk'
    obtain ⟨hk', hp'⟩ := List.mem_filter.mp hk'
    exact List.inj_on_of_nodup_map hn hk' hk (honly k' hp')
  have hnodup := (List.Nodup.of_map _ hn).filter p
  rcases hfilter : db.apiKeys.filter p with _ | ⟨x, _ | ⟨y, l⟩⟩
  · rw [hfilter] at hmem
    cases hmem
  · rw [hfilter] at hall
    rw [hall x List.mem_cons_self]
  · rw [hfilter] at hall hnodup
    have hxy : x = y := (hall x (by simp)).trans (hall y (by simp)).symm
    simp [hxy] at hnodup

theorem completeEnrollment_ne_notFound {db : CredentialDB} {io : Driver} {req : EnrollmentRequest}
    {now : ℤ} {k : APIKey} (hn : (db.apiKeys.map (·.keyHash)).Nodup) (hk : k ∈ db.apiKeys)
    (henroll : Enrollable req.codeHash now k) :
    (db.completeEnrollment io req now).2 ≠ .error .apiKeyNotFound := by
  have hcode : db.enrollCode req.codeHash = some k := by
    rw [CredentialDB.enrollCode, ← List.head?_filter, filter_unique hn hk]
    · rfl
    · simp [henroll.hash, henroll.kind]
    · intro k' hk'
      simp only [Bool.and_eq_true, decide_eq_true_eq] at hk'
      rw [hk'.1, henroll.hash]
  have hone : (db.apiKeys.filter (CredentialDB.usable req.codeHash now)).length = 1 := by
    rw [filter_unique hn hk henroll.usable]
    · rfl
    · intro k' hk'
      simp only [CredentialDB.usable, Bool.and_eq_true, decide_eq_true_eq] at hk'
      rw [hk'.1.1.1.1, henroll.hash]
  have hrotate : ∀ active, rotate io req k active now db ≠ .error .apiKeyNotFound := by
    intro active
    unfold rotate
    refine bind_ne_error (exec_ne_notFound io 6) fun _ => guard_ne_error (absurd hone) ?_
    dsimp only
    split_ifs
    · exact grant_ne_notFound _ _ _ _ _ _
    · exact bind_ne_error (exec_ne_notFound io 7) fun _ => grant_ne_notFound _ _ _ _ _ _
  have hissue : issue io req now db ≠ .error .apiKeyNotFound := by
    unfold issue
    rw [hcode]
    refine bind_ne_error (exec_ne_notFound io 4) fun _ => ?_
    refine guard_ne_error (fun h => absurd h (by simp [henroll.not_spent])) ?_
    refine bind_ne_error (exec_ne_notFound io 5) fun _ => ?_
    exact guard_ne_error (fun _ => by simp) (hrotate _)
  have hbody : enroll io req now db ≠ .error .apiKeyNotFound := by
    unfold enroll
    refine guard_ne_error (fun _ => by simp) (guard_ne_error (fun _ => by simp) ?_)
    refine bind_ne_error (exec_ne_notFound io 0) fun _ => ?_
    refine bind_ne_error (exec_ne_notFound io 1) fun _ => ?_
    refine bind_ne_error (exec_ne_notFound io 2) fun _ => ?_
    split
    · exact bind_ne_error (exec_ne_notFound io 3) fun _ => by simp [pure, Except.pure]
    · exact hissue
  rcases hresult : db.completeEnrollment io req now with ⟨db', e | r⟩
  · rintro ⟨⟩
    exact hbody (Table.transact_error hresult).2
  · simp

/-! ## What later calls leave of a row -/

/-- No call registers the hash again. -/
def NoneRegisters (hash : String) (calls : List CredentialCall) : Prop :=
  ∀ c ∈ calls, ∀ r, c.op = .upsertAPIKey r → r.keyHash ≠ hash

theorem run_hashes (calls : List CredentialCall) {db : CredentialDB}
    (hn : (db.apiKeys.map (·.keyHash)).Nodup) :
    ((Run.run CredentialDB.step db calls).apiKeys.map (·.keyHash)).Nodup := by
  induction calls generalizing db with
  | nil => exact hn
  | cons c calls ih => exact ih (step_hashes hn)

theorem run_row {calls : List CredentialCall} {db : CredentialDB} {k : APIKey} (hk : k ∈ db.apiKeys)
    (hcalls : NoneRegisters k.keyHash calls) :
    ∃ k' ∈ (Run.run CredentialDB.step db calls).apiKeys, k.Later k' := by
  induction calls generalizing db k with
  | nil => exact ⟨k, hk, .refl k⟩
  | cons c calls ih =>
    obtain ⟨k₁, hk₁, hhash, -, hlater⟩ := step_row (c := c) hk
    have hfirst := hlater (hcalls c List.mem_cons_self)
    obtain ⟨k₂, hk₂, hrest⟩ := ih hk₁ (by
      rw [hhash]
      exact fun c' hc' => hcalls c' (List.mem_cons_of_mem _ hc'))
    exact ⟨k₂, hk₂, hfirst.trans hrest⟩

/-! ## The expiry of a code -/

/-- The code expires then, and until then every enrollment with it finds it: after any later calls, as
long as the hash is not registered again, the code not revoked and not used up. -/
structure LivesUntil (deadline : ℤ) (hash : String) (db : CredentialDB) : Prop where
  expires : ∃ k, Table.lookup (·.keyHash) hash db.apiKeys = some k ∧ k.expiresAt = deadline
  found : ∀ calls, NoneRegisters hash calls → ∀ io now (req : EnrollmentRequest),
    req.codeHash = hash → now < deadline →
    (∀ k, Table.lookup (·.keyHash) hash (Run.run CredentialDB.step db calls).apiKeys = some k →
      k.revokedAt = 0 ∧ k.uses < k.maxUses) →
    ((Run.run CredentialDB.step db calls).completeEnrollment io req now).2 ≠ .error .apiKeyNotFound

theorem livesUntil_of_row {deadline : ℤ} {hash : String} {db : CredentialDB} {k : APIKey}
    (hn : (db.apiKeys.map (·.keyHash)).Nodup)
    (hk : Table.lookup (·.keyHash) hash db.apiKeys = some k) (hkind : k.kind = kindEnroll)
    (hexpires : k.expiresAt = deadline) : LivesUntil deadline hash db := by
  obtain ⟨hmem, hhash⟩ := Table.lookup_mem hk
  refine ⟨⟨k, hk, hexpires⟩, fun calls hcalls io now req hreq hnow hstate => ?_⟩
  obtain ⟨k', hk', hlater⟩ := run_row hmem (hhash ▸ hcalls)
  have hn' := run_hashes calls hn
  have hfound : Table.lookup (·.keyHash) hash (Run.run CredentialDB.step db calls).apiKeys = some k' :=
    (Table.lookup_eq_some hn').mpr ⟨hk', hlater.keyHash.trans hhash⟩
  obtain ⟨hlive, hroom⟩ := hstate k' hfound
  refine completeEnrollment_ne_notFound hn' hk' ⟨?_, ?_, hlive, ?_, hroom⟩
  · rw [hlater.keyHash, hhash, hreq]
  · rw [hlater.kind, hkind]
  · rw [hlater.same, hexpires]
    exact hnow

namespace Server

open Handler

theorem lifetime_exact_iff {req : EnrollCodeBody} (httl : 0 < req.ttlHours) (now : ℤ) :
    unix (now + req.lifetime) = unix now + req.ttlHours * 3600 ↔ req.ttlHours ≤ 2562047 := by
  have hhours : req.hours = req.ttlHours := if_neg (by omega)
  simp only [EnrollCodeBody.lifetime, hhours, wrapInt64, Int.bmod_def, unix, hour, minute, second]
  split_ifs
  · omega
  · omega

theorem lifetime_ge (req : EnrollCodeBody) : -2 ^ 63 ≤ req.lifetime := by
  simp only [EnrollCodeBody.lifetime, wrapInt64, Int.bmod_def]
  split_ifs
  · omega
  · omega

/-- The expiry that is stored is never taken for a missing one. -/
theorem enrollCodeRecord_expiresAt (K : KeyTexts) (o : Occasion) (req : EnrollCodeBody)
    (tenantID code : String) (now : ℤ) :
    ((enrollCodeRecord K o req tenantID code).row now).expiresAt = unix (o.clock 4 + req.lifetime) := by
  refine if_neg ?_
  have hpast := o.past 4
  have hlifetime := lifetime_ge req
  simp only [enrollCodeRecord, unix, second, zeroTime] at hpast ⊢
  omega

/-- What `handleAdminEnrollCodes` answers 201 to a request with a lifetime. -/
structure IssuesCode (K : KeyTexts) (o : Occasion) (s : Server) (r : Request EnrollCodeBody)
    (req : EnrollCodeBody) (code : String) (s' : Server) : Prop where
  body : r.body = some req
  positive : 0 < req.ttlHours
  answer : ∃ name tenantID expiresAt maxUses,
    handleAdminEnrollCodes K o r s = (.ok (.code code name tenantID expiresAt maxUses), s')

theorem IssuesCode.stored {K : KeyTexts} {o : Occasion} {s s' : Server} {r : Request EnrollCodeBody}
    {req : EnrollCodeBody} {code : String} (h : IssuesCode K o s r req code s') :
    ∃ tenantID, s.db.credentials.upsertAPIKey (o.io 5) (enrollCodeRecord K o req tenantID code)
      (unix (o.clock 6)) = (s'.db.credentials, .ok ()) := by
  obtain ⟨name, tenantID, expiresAt, maxUses, hanswer⟩ := h.answer
  have hspec := handleAdminEnrollCodes_spec K o s r
  rw [wp_of_eq_ok hanswer] at hspec
  obtain ⟨req', tenantID', code', event, hbody, hissued, hstored, -, -⟩ := hspec
  cases h.body.symm.trans hbody
  cases hissued
  exact ⟨_, hstored⟩

/-- A code that was issued lives for as many hours as the request says exactly if there are at most
2562047 of them, which is as many as 64 bits of nanoseconds hold. -/
theorem enrollCode_lives_iff (K : KeyTexts) (o : Occasion) (pre : List CredentialCall) (s : Server)
    (r : Request EnrollCodeBody) :
    (∀ req code s', IssuesCode K o { s with db.credentials := credentials pre } r req code s' →
        LivesUntil (unix (o.clock 4) + req.ttlHours * 3600) (K.hashEnrollCode code) s'.db.credentials)
      ↔ ∀ req code s', IssuesCode K o { s with db.credentials := credentials pre } r req code s' →
        req.ttlHours ≤ 2562047 := by
  refine forall_congr' fun req => forall_congr' fun code => forall₂_congr fun s' h => ?_
  obtain ⟨tenantID, hstored⟩ := h.stored
  obtain ⟨k, hk, hrow⟩ := upsertAPIKey_stored hstored
  have hexpires : k.expiresAt = unix (o.clock 4 + req.lifetime) := by
    rw [hrow]
    exact enrollCodeRecord_expiresAt K o req tenantID code (unix (o.clock 6))
  rw [← lifetime_exact_iff h.positive (o.clock 4), ← hexpires]
  constructor
  · rintro ⟨⟨k', hk', hexpires'⟩, -⟩
    cases hk.symm.trans hk'
    exact hexpires'
  · refine livesUntil_of_row ?_ hk (by rw [hrow]; rfl)
    have hstep : (credentials pre).step ⟨.upsertAPIKey _, unix (o.clock 6), o.io 5⟩ = s'.db.credentials :=
      congrArg Prod.fst hstored
    rw [← hstep]
    exact step_hashes (credentials_hashes pre)

/-- A code for 2562048 hours is not found by an enrollment at the time it is issued. -/
theorem enrollCode_dead_on_issue :
    let s : Server := ⟨true, .empty, newSessionStore⟩
    let r : Request EnrollCodeBody := adminRequest ⟨"Acme", "", 0, 2562048⟩
    let s' := (handleAdminEnrollCodes plainTexts smoothly r s).2
    IssuesCode plainTexts smoothly s r ⟨"Acme", "", 0, 2562048⟩ "WM-0000-0000-0000" s'
      ∧ (s'.db.credentials.completeEnrollment (fun _ => none)
          ⟨plainTexts.hashEnrollCode "WM-0000-0000-0000", "srv-1", "", false, "wma_1", "hash", "wma_"⟩
          (unix (smoothly.clock 4))).2 = .error .apiKeyNotFound := by
  have hanswer : (handleAdminEnrollCodes plainTexts smoothly (adminRequest ⟨"Acme", "", 0, 2562048⟩)
      ⟨true, .empty, newSessionStore⟩).1 = .ok (.code "WM-0000-0000-0000" "Acme"
        (newTenantID (List.replicate 32 0)) (-9223370274) 25) := by
    decide +kernel
  refine ⟨⟨rfl, by decide, _, _, _, _, Prod.ext hanswer rfl⟩, ?_⟩
  decide +kernel

end Server

end WMonitor
