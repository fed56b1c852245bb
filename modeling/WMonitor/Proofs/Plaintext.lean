import WMonitor.Proofs.Handshake

/-!
# How long a token can be read

A handshake holds the plaintext of the token it was issued with. Time alone deletes none, and no
revocation, rotation or registration does: only a `TouchAPIKey` of the credential that completes. So
no token can be read longer than it should exactly in the runs where every agent uses its token in
time (`plaintext_clean_iff`).
-/

namespace WMonitor

/-- The credential is of an active agent, which has not used it. -/
def Unused (hash : String) (db : CredentialDB) : Prop :=
  ∃ k ∈ db.apiKeys, k.keyHash = hash ∧ k.active = true ∧ k.lastSeenAt = 0

/-- Every handshake has not expired at `now`, and is of a credential that nobody has used, replaced
or revoked. -/
def Clean (now : ℤ) (db : CredentialDB) : Prop :=
  ∀ h ∈ db.handshakes, now < h.expiresAt ∧ Unused h.keyHash db

instance (hash : String) (db : CredentialDB) : Decidable (Unused hash db) :=
  inferInstanceAs (Decidable (∃ k ∈ db.apiKeys, _))

instance (now : ℤ) (db : CredentialDB) : Decidable (Clean now db) :=
  inferInstanceAs (Decidable (∀ h ∈ db.handshakes, _))

/-- The hash of the token that the call issued. -/
def CredentialCall.issued (c : CredentialCall) (db : CredentialDB) : Option String :=
  match c.op with
  | .completeEnrollment req =>
    match (db.completeEnrollment c.io req c.now).2 with
    | .ok r => if r.recovered then none else some r.tokenHash
    | .error _ => none
  | _ => none

/-- The call is a use of the credential, and both of its statements succeed. -/
def CredentialCall.forgets (c : CredentialCall) (hash : String) : Prop :=
  c.op = .touchAPIKey hash ∧ c.io 0 = none ∧ c.io 1 = none

/-- The agent uses the token before `limit`, if the calls or the time go that far, and until then
nobody touches, replaces or revokes its credential. -/
def UsedInTime (now : ℤ) (hash : String) (limit : ℤ) : CredentialDB → List CredentialCall → Prop
  | db, [] => now < limit ∧ Unused hash db
  | db, c :: calls => c.now < limit ∧ Unused hash db
      ∧ (c.forgets hash ∨ UsedInTime now hash limit (db.step c) calls)

/-- Every token that the calls issue is used in time. -/
def AllUsedInTime (now : ℤ) : CredentialDB → List CredentialCall → Prop
  | _, [] => True
  | db, c :: calls =>
    (∀ hash, c.issued db = some hash →
      UsedInTime now hash (c.now + handshakeTTL) (db.step c) calls)
      ∧ AllUsedInTime now (db.step c) calls

/-! ## One call -/

/-- The codes of the handshakes are there. -/
def Coded (db : CredentialDB) : Prop :=
  ∀ h ∈ db.handshakes, ∃ k ∈ db.apiKeys, k.keyHash = h.codeHash

theorem coded_step {db : CredentialDB} {c : CredentialCall} (hc : Coded db) : Coded (db.step c) := by
  intro h hm
  rcases step_handshakes hm with hm | ⟨req, code, r, -, hi, rfl⟩
  · obtain ⟨k, hk, hkh⟩ := hc h hm
    obtain ⟨k', hk', hkh', -⟩ := step_row (c := c) hk
    exact ⟨k', hk', hkh'.trans hkh⟩
  · obtain ⟨⟨k, hk, hkh, -⟩, -⟩ := hi.rows
    exact ⟨k, hk, hkh⟩

/-- A code whose handshake for the server has not expired has it recovered. -/
theorem clean_recoverable {codeHash serverID : String} {now : ℤ} {db : CredentialDB}
    (hcl : Clean now db) (hcd : Coded db) (hr : db.recoverable codeHash serverID now = none) :
    ∀ h ∈ db.handshakes, h.key ≠ (codeHash, serverID) := by
  intro h hm hk
  unfold CredentialDB.recoverable at hr
  split at hr
  · rename_i hf
    have hno := List.find?_eq_none.1 hf h hm
    simp [hk, (hcl h hm).1] at hno
  · rename_i h' hf
    obtain ⟨k, hkm, hkh⟩ := hcd h' (List.mem_of_find?_eq_some hf)
    rw [Option.map_eq_none_iff] at hr
    exact Table.lookup_eq_none.1 hr k hkm hkh

theorem mem_putHandshake_iff {h h' : Handshake} {db : CredentialDB}
    (hk : ∀ x ∈ db.handshakes, x.key ≠ h.key) :
    h' ∈ (db.putHandshake h).handshakes ↔ h' ∈ db.handshakes ∨ h' = h := by
  have hno : db.handshakes.any (·.key = h.key) = false := by
    simpa [List.any_eq_false] using hk
  unfold CredentialDB.putHandshake
  rw [hno]
  simp

theorem touchAPIKey_handshakes (io : Driver) (hash : String) (now : ℤ) (db : CredentialDB) :
    (db.touchAPIKey io hash now).1.handshakes
      = if io 0 = none ∧ io 1 = none then Table.delete (·.keyHash = hash) db.handshakes
        else db.handshakes := by
  unfold CredentialDB.touchAPIKey Driver.exec
  rcases io 0 with _ | e
  · rcases io 1 with _ | e <;> simp
  · simp

/-- A call keeps the handshakes but those that it forgets, and adds the one it issues. -/
theorem clean_step_handshakes {db : CredentialDB} {c : CredentialCall} (hcl : Clean c.now db)
    (hcd : Coded db) (P : String → ℤ → Prop) :
    (∀ h ∈ (db.step c).handshakes, P h.keyHash h.expiresAt)
      ↔ (∀ h ∈ db.handshakes, c.forgets h.keyHash ∨ P h.keyHash h.expiresAt)
        ∧ ∀ hash, c.issued db = some hash → P hash (c.now + handshakeTTL) := by
  have idle : (db.step c).handshakes = db.handshakes → (∀ h, ¬ c.forgets h) →
      c.issued db = none → ((∀ h ∈ (db.step c).handshakes, P h.keyHash h.expiresAt)
        ↔ (∀ h ∈ db.handshakes, c.forgets h.keyHash ∨ P h.keyHash h.expiresAt)
          ∧ ∀ hash, c.issued db = some hash → P hash (c.now + handshakeTTL)) := by
    intro hs hf hi
    simp [hs, hf, hi]
  obtain ⟨op, now, io⟩ := c
  cases op with
  | upsertAPIKey r =>
    refine idle ?_ (by simp [CredentialCall.forgets]) rfl
    rcases upsertAPIKey_cases io r now db with ⟨e, he⟩ | ⟨db', he, hh, -⟩
    · simp only [CredentialDB.step, he]
    · simp only [CredentialDB.step, he, hh]
  | completeEnrollment req =>
    rcases completeEnrollment_cases io req now db with
      ⟨e, he⟩ | ⟨hs, code, -, -, he⟩ | ⟨hrec, code, db', r, he, hi⟩
    · refine idle ?_ (by simp [CredentialCall.forgets]) ?_
      · simp only [CredentialDB.step, he]
      · simp only [CredentialCall.issued, he]
    · refine idle ?_ (by simp [CredentialCall.forgets]) ?_
      · simp only [CredentialDB.step, he]
      · simp only [CredentialCall.issued, he, if_true]
    · have hissued : CredentialCall.issued ⟨.completeEnrollment req, now, io⟩ db
          = some req.tokenHash := by
        simp [CredentialCall.issued, he, hi.result]
      have hmem : ∀ h, h ∈ db'.handshakes ↔ h ∈ db.handshakes ∨ h = req.handshake code now := by
        intro h
        rw [hi.handshakes]
        exact mem_putHandshake_iff (clean_recoverable hcl hcd hrec)
      simp only [CredentialDB.step, he, hissued, Option.some.injEq, forall_eq',
        CredentialCall.forgets, reduceCtorEq, false_and, false_or]
      constructor
      · intro h
        exact ⟨fun x hx => h x ((hmem x).2 (.inl hx)),
          h (req.handshake code now) ((hmem _).2 (.inr rfl))⟩
      · rintro ⟨hold, hnew⟩ x hx
        rcases (hmem x).1 hx with hx | rfl
        · exact hold x hx
        · exact hnew
  | replaceAgent tenant server token tokenHash pfx =>
    refine idle ?_ (by simp [CredentialCall.forgets]) rfl
    rcases replaceAgent_cases io tenant server token tokenHash pfx now db with
      ⟨e, he⟩ | ⟨db', r, name, he, -, -, -, hh, -⟩
    · simp only [CredentialDB.step, he]
    · simp only [CredentialDB.step, he, hh]
  | consumeEnrollCode codeHash =>
    refine idle ?_ (by simp [CredentialCall.forgets]) rfl
    rcases consumeEnrollCode_cases io codeHash now db with ⟨e, he⟩ | ⟨rec, he, -⟩
    · simp only [CredentialDB.step, he]
    · simp only [CredentialDB.step, he]
      rfl
  | touchAPIKey keyHash =>
    have hs := touchAPIKey_handshakes io keyHash now db
    by_cases hio : io 0 = none ∧ io 1 = none
    · rw [if_pos hio] at hs
      have hf : ∀ hash, CredentialCall.forgets ⟨.touchAPIKey keyHash, now, io⟩ hash
          ↔ hash = keyHash := by
        intro hash
        simp [CredentialCall.forgets, hio, eq_comm]
      simp only [CredentialDB.step, hs, Table.mem_delete, hf, CredentialCall.issued, reduceCtorEq,
        false_implies, implies_true, and_true, decide_eq_false_iff_not, and_imp, or_iff_not_imp_left]
    · rw [if_neg hio] at hs
      refine idle hs (fun hash hf => hio hf.2) rfl
  | revokeAPIKey clientName =>
    exact idle (revoke_cases io _ now db).1 (by simp [CredentialCall.forgets]) rfl
  | revokeKeyHash keyHash =>
    exact idle (revokeKeyHash_cases io _ now db).1 (by simp [CredentialCall.forgets]) rfl
  | revokeAgent tenant server =>
    exact idle (revoke_cases io _ now db).1 (by simp [CredentialCall.forgets]) rfl

/-! ## Runs -/

/-- By induction on the calls: what is in the table now has to be used in time, and so does what is
issued later. -/
theorem clean_run_iff (now : ℤ) : ∀ (calls : List CredentialCall) (db : CredentialDB), Coded db →
    ((Run.Along CredentialDB.step (fun db c => Clean c.now db) db calls
        ∧ Clean now (Run.run CredentialDB.step db calls))
      ↔ (∀ h ∈ db.handshakes, UsedInTime now h.keyHash h.expiresAt db calls)
        ∧ AllUsedInTime now db calls)
  | [], db, _ => by
    simp only [Run.Along, Run.run, List.foldl_nil, true_and, UsedInTime, AllUsedInTime, and_true]
    rfl
  | c :: calls, db, hcd => by
    have ih := clean_run_iff now calls (db.step c) (coded_step hcd)
    have hrun : Run.run CredentialDB.step db (c :: calls)
        = Run.run CredentialDB.step (db.step c) calls := rfl
    have hclean : (∀ h ∈ db.handshakes, UsedInTime now h.keyHash h.expiresAt db (c :: calls))
        ↔ Clean c.now db ∧ ∀ h ∈ db.handshakes,
          c.forgets h.keyHash ∨ UsedInTime now h.keyHash h.expiresAt (db.step c) calls := by
      simp only [UsedInTime, Clean, ← forall_and, ← and_assoc]
    rw [hrun, hclean]
    simp only [Run.Along, AllUsedInTime, and_assoc]
    refine and_congr_right fun hcl => ?_
    rw [ih, clean_step_handshakes hcl hcd fun hash limit =>
      UsedInTime now hash limit (db.step c) calls, and_assoc]

/-- Before every call of a run at its time, and after all of them at `now`, no token can be read that
has expired or whose credential was used, replaced or revoked, exactly if every token that the run
issues is used in time. -/
theorem plaintext_clean_iff (calls : List CredentialCall) (now : ℤ) :
    (Run.Along CredentialDB.step (fun db c => Clean c.now db) .empty calls
        ∧ Clean now (credentials calls))
      ↔ AllUsedInTime now .empty calls := by
  have h := clean_run_iff now calls .empty fun h hm => absurd hm List.not_mem_nil
  refine h.trans (and_iff_right fun h hm => ?_)
  exact absurd hm List.not_mem_nil

/-- The token of the sample can be read when it has expired, and when its credential is revoked. -/
theorem plaintext_outlives :
    (∃ h ∈ (credentials sampleEnrollment).handshakes, h.token = "wma_token"
        ∧ h.createdAt + handshakeTTL ≤ 1767229200)
      ∧ ¬ Clean 1767229200 (credentials sampleEnrollment)
      ∧ (∃ h ∈ (credentials sampleRevoked).handshakes, h.token = "wma_token")
      ∧ ¬ Clean 1767225603 (credentials sampleRevoked) := by
  decide +kernel

end WMonitor
