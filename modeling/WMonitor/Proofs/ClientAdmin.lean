import Mathlib.Data.List.TakeWhile
import WMonitor.ClientAdmin
import WMonitor.Proofs.Issuance
import WMonitor.Proofs.OpaqueTenant

/-!
# Which commands of the administrator are accounted for

With a database that does not fail, a command that changed the store and appended its event is done; but
an event that `AuditEvent.validate` refuses makes a change that is already committed end in `log.Fatal`,
without its row in the audit log. `runClientAdmin_accounted_iff` says of each command when that is so.
-/

namespace WMonitor

namespace ClientAdmin

open Handler

/-- The database does not fail, nor does the audit. -/
def sound (o : Occasion) : Occasion := { o with io := fun _ _ => none, audit := .none }

/-- The command had an effect, the audit log apart. -/
def Changed (db db' : Database) : Prop := db'.credentials ≠ db.credentials ∨ db'.hub ≠ db.hub

/-- A command that fails has had no effect, and one that is done and had an effect appended its event. -/
def Accounted (db : Database) (m : CommandM Unit) : Prop :=
  m.wp (fun db' => ¬ Changed db db')
    (fun _ db' => Changed db db' → ∃ event, db'.audit = db.audit ++ [event]) db

/-- The event that the command passes to `AppendAudit` is valid: the tenant is not blank and the name or
the id of the target has at most 128 bytes. The action of `revokeClient` is not among those allowed. -/
def Recordable (K : KeyTexts) (db : Database) : Command → Prop
  | .newEnrollCode name _ _ => len name ≤ 128
    ∧ ∀ all tenant, db.credentials.listAPIKeys (fun _ => none) = .ok all →
        K.uniqueTenantForClientName all name = .ok tenant → requireTenant tenant = true
  | .newAdminToken => True
  | .addClient name => len name ≤ 128
  | .revokeClient _ => False
  | .revokeAgent serverID => len serverID ≤ 128
    ∧ ∀ tenant ∈ agentTenants serverID db.credentials, requireTenant tenant = true
  | .migrateOpaqueTenants _ _ => True

theorem not_changed_refl (db : Database) : ¬ Changed db db :=
  fun h => h.elim (absurd rfl) (absurd rfl)

/-! ## Events -/

theorem cliEvent_valid_iff {tenantID action targetType targetID : String}
    (htype : len targetType ≤ 32) :
    (cliEvent tenantID action targetType targetID).validate = .ok ()
      ↔ requireTenant tenantID = true ∧ action ∈ allowedAuditActions ∧ len targetID ≤ 128 := by
  have hblank : ¬ ((cliEvent tenantID action targetType targetID).actorPrefix.toList.any
      [' ', '\t', '\r', '\n'].contains = true) := by
    change ¬ ("cli".toList.any [' ', '\t', '\r', '\n'].contains = true)
    decide
  have hlen : len (cliEvent tenantID action targetType targetID).actorKind = 3
      ∧ len (cliEvent tenantID action targetType targetID).actorPrefix = 3 := by
    change len "cli" = 3 ∧ len "cli" = 3
    decide
  unfold AuditEvent.validate
  rw [hlen.1, hlen.2, if_neg hblank]
  split_ifs with htenant haction hlong
  · exact iff_of_false (fun h => nomatch h) fun h => by simp_all [cliEvent]
  · exact iff_of_false (fun h => nomatch h) fun h => by simp_all [cliEvent]
  · refine iff_of_false (fun h => nomatch h) fun h => ?_
    have htarget : (cliEvent tenantID action targetType targetID).targetID = targetID := rfl
    have htypeEq : (cliEvent tenantID action targetType targetID).targetType = targetType := rfl
    rw [htarget, htypeEq] at hlong
    omega
  · refine iff_of_true rfl ⟨by simpa [cliEvent] using htenant, by simpa [cliEvent] using haction, ?_⟩
    have htarget : (cliEvent tenantID action targetType targetID).targetID = targetID := rfl
    rw [htarget] at hlong
    omega

/-- How a command ends: without an effect, or with its event if that is valid, or else without a new
event. -/
def Ends (valid : Prop) (db db' : Database) : Prop :=
  ¬ Changed db db' ∨ (valid ∧ ∃ event, db'.audit = db.audit ++ [event])
    ∨ (¬ valid ∧ db'.audit = db.audit)

/-- What is proved of each command: it fails with an effect only if its event is not valid. -/
def Spec (valid : Prop) (db : Database) (m : CommandM Unit) (db₁ : Database) : Prop :=
  m.wp (fun db' => valid → ¬ Changed db db') (fun _ => Ends valid db) db₁

theorem recordCLIAudit_spec {o : Occasion} {ev : AuditEvent} {valid : Prop} {db db₁ : Database}
    (haudit : db₁.audit = db.audit) (hvalid : valid ↔ ev.validate = .ok ()) :
    Spec valid db (recordCLIAudit (sound o) ev) db₁ := by
  have happend : appendAudit (sound o) ev = call fun db =>
      ((db.appendAudit ev (o.clock 9)).1, (db.appendAudit ev (o.clock 9)).2.isOk) := rfl
  unfold Spec recordCLIAudit
  rw [happend, wp_bind, wp_call, wp_refuseIf]
  rcases hev : ev.validate with e | _
  · have hfail : db₁.appendAudit ev (o.clock 9) = (db₁, .error e) := by
      rw [Database.appendAudit, hev]
    rw [hfail]
    refine ⟨fun _ hv => ?_, fun h => absurd rfl h⟩
    rw [hvalid, hev] at hv
    cases hv
  · obtain ⟨event, db₂, haudit₂, hok⟩ : ∃ event db₂, db₂.audit = db₁.audit ++ [event]
        ∧ db₁.appendAudit ev (o.clock 9) = (db₂, .ok ()) := by
      rw [Database.appendAudit, hev]
      exact ⟨_, _, rfl, rfl⟩
    rw [hok]
    refine ⟨fun h => absurd h (by simp [Except.isOk, Except.toBool]),
      fun _ => .inr (.inl ⟨hvalid.mpr hev, event, ?_⟩)⟩
    rw [haudit₂, haudit]

/-! ## The steps of a command -/

variable {o : Occasion} {valid : Prop} {db : Database}

theorem spec_refuse {e : String} : Spec valid db (refuse e) db :=
  wp_refused fun _ => not_changed_refl db

theorem spec_refuseIf_bind {c : Prop} {_ : Decidable c} {e : String} {f : Unit → CommandM Unit}
    (h : ¬ c → Spec valid db (f ()) db) : Spec valid db (refuseIf c e >>= f) db :=
  wp_refuseIf_bind (fun _ => not_changed_refl db) h

theorem spec_random_bind {α : Type} {n : ℕ} {fatal : String} {g : List UInt8 → α}
    {f : α → CommandM Unit} (h : ∀ buf, Spec valid db (f (g buf)) db) :
    Spec valid db (random (sound o) n fatal g >>= f) db := by
  unfold Spec random
  rw [wp_bind]
  rcases (sound o).rand n with e | buf
  · exact wp_refused fun _ => not_changed_refl db
  · exact wp_returned (h buf)

theorem spec_listAPIKeys_bind {f : List APIKeyRecord → CommandM Unit}
    (h : ∀ all, db.credentials.listAPIKeys (fun _ => none) = .ok all → Spec valid db (f all) db) :
    Spec valid db (listAPIKeys (sound o) >>= f) db := by
  have hio : (sound o).io 0 = fun _ => none := rfl
  unfold Spec listAPIKeys
  rw [wp_bind, wp_bind, wp_read, hio]
  rcases hall : db.credentials.listAPIKeys (fun _ => none) with e | all
  · exact wp_refused fun _ => not_changed_refl db
  · exact wp_returned (h all hall)

/-- A call that changes nothing when it fails. -/
theorem spec_credentialCall_bind {α : Type} {call : CredentialDB → CredentialDB × Except CredentialError α}
    {f : Except CredentialError α → CommandM Unit} {fatal : String}
    (hkeeps : ∀ e, (call db.credentials).2 = .error e → (call db.credentials).1 = db.credentials)
    (hfatal : ∀ e, f (.error e) = refuse fatal)
    (h : ∀ a db₁, db₁.audit = db.audit → Spec valid db (f (.ok a)) db₁) :
    Spec valid db (credentialCall call >>= f) db := by
  unfold Spec
  rw [wp_bind, credentialCall, wp_call]
  rcases hcall : (call db.credentials).2 with e | a
  · rw [hfatal, hkeeps e hcall]
    exact wp_refused fun _ => not_changed_refl db
  · exact h a _ rfl

theorem spec_upsertAPIKey_bind {fatal : String} {r : APIKeyRecord} {f : Unit → CommandM Unit}
    (h : ∀ db₁, db₁.audit = db.audit → Spec valid db (f ()) db₁) :
    Spec valid db (upsertAPIKey (sound o) fatal r >>= f) db := by
  unfold Spec upsertAPIKey credentialCall
  rw [wp_bind, wp_bind, wp_call]
  rcases hcall : (db.credentials.upsertAPIKey ((sound o).io 1) r (unix ((sound o).clock 2))).2 with
    e | a
  · have hkeeps : (db.credentials.upsertAPIKey ((sound o).io 1) r (unix ((sound o).clock 2))).1
        = db.credentials := (Table.transact_error (Prod.ext rfl hcall)).1
    rw [hkeeps]
    exact wp_refused fun _ => not_changed_refl db
  · exact wp_returned (h _ rfl)

theorem revoke_sound {p : APIKey → Bool} {now : ℤ} {keys : CredentialDB} {e : CredentialError} :
    (keys.revoke (fun _ => none) p now).2 ≠ .error e := by
  have hexec : ∀ n, Driver.exec (fun _ => none) n = .ok () := fun _ => rfl
  unfold CredentialDB.revoke
  simp only [hexec]
  split_ifs
  · simp
  · simp

/-! ## The commands -/

theorem newEnrollCode_spec (K : KeyTexts) (name : String) (ttl uses : ℤ) :
    Spec (Recordable K db (.newEnrollCode name ttl uses)) db (newEnrollCode K (sound o) name ttl uses)
      db := by
  unfold newEnrollCode
  refine spec_listAPIKeys_bind fun all hall => ?_
  split
  · exact spec_refuse
  · rename_i tenant htenant
    refine spec_refuseIf_bind fun _ => spec_random_bind fun buf => spec_upsertAPIKey_bind fun db₁ h₁ =>
      recordCLIAudit_spec h₁ ?_
    rw [cliEvent_valid_iff (by decide)]
    constructor
    · exact fun h => ⟨h.2 all tenant hall htenant, by decide, h.1⟩
    · rintro ⟨hblank, -, hlen⟩
      refine ⟨hlen, fun all' tenant' hall' htenant' => ?_⟩
      rw [hall] at hall'
      cases hall'
      rw [htenant] at htenant'
      cases htenant'
      exact hblank

theorem newAdminToken_spec (K : KeyTexts) :
    Spec (Recordable K db .newAdminToken) db (newAdminToken K (sound o)) db := by
  unfold newAdminToken
  refine spec_random_bind fun buf => spec_upsertAPIKey_bind fun db₁ h₁ => recordCLIAudit_spec h₁ ?_
  rw [cliEvent_valid_iff (by decide)]
  exact iff_of_true trivial ⟨by decide, by decide, by decide⟩

theorem requireTenant_newTenantID (buf : List UInt8) : requireTenant (newTenantID buf) = true := by
  have hlist : (newTenantID buf).toList = 't' :: '_' :: (hexEncode buf).toList := by
    simp [newTenantID]
  have hspace : isSpace 't' = false := by decide
  unfold requireTenant trimSpace
  rw [hlist, List.dropWhile_cons_of_neg (by simp [hspace]), decide_eq_true_eq, ne_eq,
    List.reverse_eq_nil_iff, List.dropWhile_eq_nil_iff]
  intro h
  exact absurd (h 't' (by simp)) (by simp [hspace])

theorem addClient_spec (K : KeyTexts) (name : String) :
    Spec (Recordable K db (.addClient name)) db (addClient K (sound o) name) db := by
  unfold addClient
  refine spec_listAPIKeys_bind fun all _ => spec_refuseIf_bind fun _ => spec_random_bind fun buf =>
    spec_random_bind fun _ => spec_upsertAPIKey_bind fun db₁ h₁ => recordCLIAudit_spec h₁ ?_
  rw [cliEvent_valid_iff (by decide)]
  exact ⟨fun h => ⟨requireTenant_newTenantID buf, by decide, h⟩, fun h => h.2.2⟩

theorem revokeClient_spec (K : KeyTexts) (name : String) :
    Spec (Recordable K db (.revokeClient name)) db (revokeClient K (sound o) name) db := by
  unfold revokeClient
  refine spec_listAPIKeys_bind fun all _ => ?_
  split
  · exact spec_refuse
  · rename_i tenant htenant
    refine spec_credentialCall_bind (fun e he => absurd he revoke_sound) (fun _ => rfl)
      fun n db₁ h₁ => ?_
    dsimp only
    split_ifs
    · refine recordCLIAudit_spec h₁ (iff_of_false id fun h => ?_)
      rw [cliEvent_valid_iff (by decide)] at h
      exact absurd h.2.1 (by decide)
    · exact wp_returned (.inr (.inr ⟨id, h₁⟩))

theorem revokeAgent_spec (K : KeyTexts) (serverID : String) :
    Spec (Recordable K db (.revokeAgent serverID)) db (revokeAgent (sound o) serverID) db := by
  unfold revokeAgent
  refine spec_refuseIf_bind fun _ => ?_
  unfold Spec
  rw [wp_bind, wp_read]
  rcases htenants : agentTenants serverID db.credentials with _ | ⟨tenant, _ | ⟨other, rest⟩⟩
  · exact wp_returned (.inl (not_changed_refl db))
  · refine spec_credentialCall_bind (fun e he => absurd he revoke_sound) (fun _ => rfl)
      fun n db₁ h₁ => recordCLIAudit_spec h₁ ?_
    rw [cliEvent_valid_iff (by decide)]
    constructor
    · exact fun h => ⟨h.2 tenant (by simp [htenants]), by decide, h.1⟩
    · rintro ⟨hblank, -, hlen⟩
      refine ⟨hlen, fun tenant' h' => ?_⟩
      rw [htenants, List.mem_singleton] at h'
      exact h' ▸ hblank
  · exact spec_refuse

theorem runOpaqueTenantMigration_spec (K : KeyTexts) (sqlite : Bool) (m : Migration) :
    Spec (Recordable K db (.migrateOpaqueTenants sqlite m)) db
      (runOpaqueTenantMigration (sound o) sqlite m) db := by
  unfold runOpaqueTenantMigration
  refine spec_refuseIf_bind fun _ => ?_
  unfold Spec
  rw [wp_bind, wp_call]
  rcases h : db.migrateOpaqueTenants m with ⟨db', e | report⟩
  · rw [Database.migrate_error h]
    exact spec_refuse
  · obtain ⟨f, rfl, -⟩ := Database.migrate_moved h
    refine recordCLIAudit_spec rfl ?_
    rw [cliEvent_valid_iff (by decide)]
    exact iff_of_true trivial ⟨by decide, by decide, by decide⟩

theorem runClientAdmin_spec (K : KeyTexts) (cmd : Command) :
    Spec (Recordable K db cmd) db (runClientAdmin K (sound o) cmd) db := by
  cases cmd with
  | newEnrollCode name ttl uses => exact newEnrollCode_spec K name ttl uses
  | newAdminToken => exact newAdminToken_spec K
  | addClient name => exact addClient_spec K name
  | revokeClient name => exact revokeClient_spec K name
  | revokeAgent serverID => exact revokeAgent_spec K serverID
  | migrateOpaqueTenants sqlite m => exact runOpaqueTenantMigration_spec K sqlite m

/-- A command that has an effect is accounted for exactly if its event can be recorded. -/
theorem runClientAdmin_accounted_iff (K : KeyTexts) (o : Occasion) (db : Database) (cmd : Command) :
    Accounted db (runClientAdmin K (sound o) cmd)
      ↔ (Changed db (runClientAdmin K (sound o) cmd db).2 → Recordable K db cmd) := by
  have hspec : Spec (Recordable K db cmd) db (runClientAdmin K (sound o) cmd) db :=
    runClientAdmin_spec K cmd
  unfold Spec at hspec
  unfold Accounted
  rcases hrun : runClientAdmin K (sound o) cmd db with ⟨e | _, db'⟩
  · rw [wp_of_eq_error hrun] at hspec ⊢
    exact ⟨fun h hc => absurd hc h, fun h hc => hspec (h hc) hc⟩
  · rw [wp_of_eq_ok hrun] at hspec ⊢
    constructor
    · intro h hc
      rcases hspec with hsame | ⟨hvalid, -⟩ | ⟨-, haudit⟩
      · exact absurd hc hsame
      · exact hvalid
      · obtain ⟨event, hevent⟩ := h hc
        simp [haudit] at hevent
    · intro h hc
      rcases hspec with hsame | ⟨-, hevent⟩ | ⟨hinvalid, -⟩
      · exact absurd hc hsame
      · exact hevent
      · exact absurd (h hc) hinvalid

/-! ## A client that is revoked -/

/-- A store in which the client was created by the command for it. -/
def withClient : Database :=
  (runClientAdmin Server.plainTexts Server.smoothly (.addClient "Acme") .empty).2

/-- The command revokes the credential and ends in `log.Fatal`, and no event tells of it. -/
theorem revokeClient_unaccounted :
    (runClientAdmin Server.plainTexts (sound Server.smoothly) (.revokeClient "Acme") withClient).1
        = .error "audit unavailable"
      ∧ (runClientAdmin Server.plainTexts (sound Server.smoothly) (.revokeClient "Acme")
          withClient).2.audit = withClient.audit
      ∧ ¬ Accounted withClient
          (runClientAdmin Server.plainTexts (sound Server.smoothly) (.revokeClient "Acme")) := by
  have hfatal : (runClientAdmin Server.plainTexts (sound Server.smoothly) (.revokeClient "Acme")
      withClient).1 = .error "audit unavailable" := by
    decide +kernel
  have hkeys : (runClientAdmin Server.plainTexts (sound Server.smoothly) (.revokeClient "Acme")
      withClient).2.credentials ≠ withClient.credentials := by
    decide +kernel
  refine ⟨hfatal, by decide +kernel, fun h => ?_⟩
  unfold Accounted at h
  rw [wp_of_eq_error (Prod.ext hfatal rfl)] at h
  exact h (.inl hkeys)

end ClientAdmin

end WMonitor
