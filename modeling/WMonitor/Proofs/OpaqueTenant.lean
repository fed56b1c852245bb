import WMonitor.OpaqueTenant
import WMonitor.Proofs.Handshake
import WMonitor.Proofs.Receipts
import WMonitor.Proofs.Store

/-!
# What the migration renames

A migration that succeeds replaces each old id by its new one in `api_keys`, `metrics` and
`processes`, and touches no other table. So it is a renaming of the whole database just when none of
the old ids stands in one of the others, and a replay is known as one just when the tenant of its
credential kept its id.
-/

namespace WMonitor

/-! ## New ids -/

theorem isHexDigit_hexDigit {n : ℕ} (h : n < 16) : isHexDigit (hexDigit n) = true := by
  interval_cases n <;> decide

theorem length_le_len (l : List Char) : l.length ≤ len (String.ofList l) := by
  unfold len
  rw [String.toList_ofList]
  induction l with
  | nil => rfl
  | cons c l ih =>
    have := c.utf8Size_pos
    simp only [List.map_cons, List.sum_cons, List.length_cons]
    omega

theorem isOpaque_newTenantID {buf : List UInt8} (h : buf.length = 16) :
    isOpaqueTenantID (newTenantID buf) = true := by
  unfold isOpaqueTenantID
  split_ifs
  · rfl
  · have hlist : (newTenantID buf).toList = 't' :: '_' :: buf.flatMap fun b =>
        [hexDigit (b.toNat / 16), hexDigit (b.toNat % 16)] := by
      simp [newTenantID, hexEncode]
    rw [hlist]
    have hlen : 16 ≤ len (String.ofList (buf.flatMap fun b =>
        [hexDigit (b.toNat / 16), hexDigit (b.toNat % 16)])) := by
      refine le_trans ?_ (length_le_len _)
      simp [List.length_flatMap, h]
    simp only [if_neg (not_lt.2 hlen), List.all_eq_true, List.mem_flatMap]
    rintro c ⟨b, -, hc⟩
    have := b.toNat_lt
    simp only [List.mem_cons, List.not_mem_nil, or_false] at hc
    rcases hc with rfl | rfl <;> exact isHexDigit_hexDigit (by omega)

/-! ## Renaming one id after another -/

def renameAll : List (String × String) → String → String
  | [], id => id
  | p :: ps, id => renameAll ps (if id = p.1 then p.2 else id)

theorem renameAll_of_notMem {ps : List (String × String)} {id : String}
    (h : id ∉ ps.map (·.1)) : renameAll ps id = id := by
  induction ps with
  | nil => rfl
  | cons p ps ih =>
    simp only [List.map_cons, List.mem_cons, not_or] at h
    rw [renameAll, if_neg h.1, ih h.2]

/-- When no new id is an old one, an old id gets the new one beside it. -/
theorem renameAll_mem {ps : List (String × String)} {id : String}
    (hnew : ∀ p ∈ ps, p.2 ∉ ps.map (·.1)) (h : id ∈ ps.map (·.1)) : (id, renameAll ps id) ∈ ps := by
  induction ps with
  | nil => simp at h
  | cons p ps ih =>
    have hrest : ∀ q ∈ p :: ps, q.2 ∉ ps.map (·.1) := fun q hq hm =>
      hnew q hq (List.mem_cons_of_mem _ hm)
    rw [renameAll]
    split_ifs with hid
    · rw [renameAll_of_notMem (hrest p List.mem_cons_self), hid]
      exact List.mem_cons_self
    · have h : id ∈ ps.map (·.1) := (List.mem_cons.1 h).resolve_left hid
      exact List.mem_cons_of_mem _ (ih (fun q hq => hrest q (List.mem_cons_of_mem p hq)) h)

namespace Database

/-- The database with the ids of the three migrated tables renamed. -/
def moved (f : String → String) (db : Database) : Database :=
  { db with
    credentials.apiKeys := db.credentials.apiKeys.map fun k => { k with tenantID := f k.tenantID }
    hub.metrics := db.hub.metrics.map fun r => { r with row.tenantID := f r.row.tenantID }
    hub.processes := db.hub.processes.map fun r => { r with row.tenantID := f r.row.tenantID } }

/-- The database with the ids of all tables renamed. -/
def renamed (f : String → String) (db : Database) : Database :=
  { db.moved f with
    hub.receipts := db.hub.receipts.map fun r => { r with tenantID := f r.tenantID }
    hub.budgets := db.hub.budgets.map fun b => { b with tenantID := f b.tenantID }
    credentials.handshakes := db.credentials.handshakes.map fun h =>
      { h with tenantID := f h.tenantID }
    audit := db.audit.map fun r => { r with row.tenantID := f r.row.tenantID } }

/-- The tenant ids in the migrated tables. -/
def movedIDs (db : Database) : List String :=
  db.credentials.apiKeys.map (·.tenantID) ++ db.hub.metrics.map (·.row.tenantID)
    ++ db.hub.processes.map (·.row.tenantID)

/-- The tenant ids in the other tables. -/
def leftIDs (db : Database) : List String :=
  db.hub.receipts.map (·.tenantID) ++ db.hub.budgets.map (·.tenantID)
    ++ db.credentials.handshakes.map (·.tenantID) ++ db.audit.map (·.row.tenantID)

theorem moved_id (db : Database) : db.moved id = db := by
  simp [moved]

theorem moved_moved (f g : String → String) (db : Database) :
    (db.moved f).moved g = db.moved fun id => g (f id) := by
  simp [moved, Function.comp_def]

theorem mem_plaintext {db : Database} {id : String} :
    id ∈ db.plaintextTenantIDs ↔ id ∈ db.movedIDs ∧ isOpaqueTenantID id = false := by
  have hne : isOpaqueTenantID id = false → id ≠ "" := by
    rintro h rfl
    exact absurd h (by decide)
  simp only [plaintextTenantIDs, movedIDs, List.mem_dedup, List.mem_filter, Bool.and_eq_true,
    decide_eq_true_eq, Bool.not_eq_true']
  exact ⟨fun ⟨h₁, _, h₂⟩ => ⟨h₁, h₂⟩, fun ⟨h₁, h₂⟩ => ⟨h₁, hne h₂, h₂⟩⟩

/-! ## What a migration does -/

theorem remapOne_moved (oldID newID : String) (db : Database) :
    { db with
      credentials.apiKeys := setKeyTenant oldID newID db.credentials.apiKeys
      hub.metrics := setMetricTenant oldID newID db.hub.metrics
      hub.processes := setProcessTenant oldID newID db.hub.processes }
      = db.moved fun id => if id = oldID then newID else id := by
  have hkeys : ∀ k : APIKey, (if decide (k.tenantID = oldID) = true then
      { k with tenantID := newID } else k)
        = { k with tenantID := if k.tenantID = oldID then newID else k.tenantID } := by
    intro k
    by_cases hk : k.tenantID = oldID <;> simp [hk]
  have hmetrics : ∀ r : Stored MetricRecord, (if decide (r.row.tenantID = oldID) = true then
      { r with row.tenantID := newID } else r)
        = { r with row.tenantID := if r.row.tenantID = oldID then newID else r.row.tenantID } := by
    intro r
    by_cases hr : r.row.tenantID = oldID <;> simp [hr]
  have hprocesses : ∀ r : Stored ProcessRecord, (if decide (r.row.tenantID = oldID) = true then
      { r with row.tenantID := newID } else r)
        = { r with row.tenantID := if r.row.tenantID = oldID then newID else r.row.tenantID } := by
    intro r
    by_cases hr : r.row.tenantID = oldID <;> simp [hr]
  simp only [moved, setKeyTenant, setMetricTenant, setProcessTenant, Table.update, hkeys, hmetrics,
    hprocesses]

/-- The loop renames the old ids to the new ones drawn for them. -/
theorem remapTenants_ok {m : Migration} {n : ℕ} {oldIDs : List String}
    {report report' : OpaqueTenantReport} {db db' : Database}
    (h : db.remapTenants m n oldIDs report = .ok (db', report')) :
    ∃ bufs : List (List UInt8), bufs.length = oldIDs.length
      ∧ (∀ i (hi : i < bufs.length), m.random (n + i) = .ok bufs[i])
      ∧ db' = db.moved (renameAll (oldIDs.zip (bufs.map newTenantID))) := by
  induction oldIDs generalizing n report db with
  | nil =>
    cases h
    exact ⟨[], rfl, by simp, (moved_id _).symm⟩
  | cons oldID oldIDs ih =>
    simp only [remapTenants] at h
    split at h
    · cases h
    · rename_i buf hbuf
      obtain ⟨_, -, h⟩ := Table.ok_of_bind h
      obtain ⟨-, h⟩ := Table.ok_of_guard h
      obtain ⟨_, -, h⟩ := Table.ok_of_bind h
      obtain ⟨_, -, h⟩ := Table.ok_of_bind h
      obtain ⟨bufs, hlen, hbufs, rfl⟩ := ih h
      refine ⟨buf :: bufs, by simp [hlen], ?_, ?_⟩
      · intro i hi
        cases i with
        | zero => exact hbuf
        | succ i =>
          rw [show n + (i + 1) = n + 1 + i by omega]
          exact hbufs i (by simpa using hi)
      · rw [remapOne_moved, moved_moved]
        rfl

/-- A migration that succeeds renames the old ids, in the order it reads them. -/
theorem migrate_ok {m : Migration} {db db' : Database} {report : OpaqueTenantReport}
    (h : db.migrateOpaqueTenants m = (db', .ok report)) :
    ∃ bufs : List (List UInt8), bufs.length = (m.order db.plaintextTenantIDs).length
      ∧ (∀ i (hi : i < bufs.length), m.random i = .ok bufs[i])
      ∧ db' = db.moved (renameAll ((m.order db.plaintextTenantIDs).zip
        (bufs.map newTenantID))) := by
  unfold migrateOpaqueTenants at h
  split_ifs at h
  · cases h
  split at h
  · cases h
  have h := Table.transact_ok h
  unfold remap at h
  obtain ⟨_, -, h⟩ := Table.ok_of_bind h
  obtain ⟨_, -, h⟩ := Table.ok_of_bind h
  obtain ⟨_, -, h⟩ := Table.ok_of_bind h
  obtain ⟨_, -, h⟩ := Table.ok_of_bind h
  obtain ⟨⟨mid, r⟩, hmid, h⟩ := Table.ok_of_bind h
  obtain ⟨_, -, h⟩ := Table.ok_of_bind h
  cases h
  obtain ⟨bufs, hlen, hbufs, rfl⟩ := remapTenants_ok hmid
  exact ⟨bufs, hlen, fun i hi => by simpa using hbufs i hi, rfl⟩

/-- The same as a function of the ids: an old one gets the id that was drawn for it. -/
theorem migrate_moved {m : Migration} {db db' : Database} {report : OpaqueTenantReport}
    (h : db.migrateOpaqueTenants m = (db', .ok report)) :
    ∃ f : String → String, db' = db.moved f ∧ (∀ id, id ∉ db.plaintextTenantIDs → f id = id)
      ∧ ∀ id ∈ db.plaintextTenantIDs, ∃ (i : ℕ) (buf : List UInt8),
        (m.order db.plaintextTenantIDs)[i]? = some id ∧ m.random i = .ok buf
          ∧ f id = newTenantID buf := by
  obtain ⟨bufs, hlen, hbufs, rfl⟩ := migrate_ok h
  have hmem : ∀ id, id ∈ m.order db.plaintextTenantIDs ↔ id ∈ db.plaintextTenantIDs :=
    fun id => (m.perm _).mem_iff
  generalize m.order db.plaintextTenantIDs = oldIDs at *
  have hfst : (oldIDs.zip (bufs.map newTenantID)).map (·.1) = oldIDs := by
    rw [show (fun p : String × String => p.1) = Prod.fst from rfl,
      List.map_fst_zip (by simp [hlen])]
  have hdrawn : ∀ p ∈ oldIDs.zip (bufs.map newTenantID), ∃ (i : ℕ) (buf : List UInt8),
      oldIDs[i]? = some p.1 ∧ m.random i = .ok buf ∧ p.2 = newTenantID buf := by
    intro p hp
    obtain ⟨i, hi, rfl⟩ := List.mem_iff_getElem.1 hp
    have hib : i < bufs.length := by
      simp at hi
      omega
    exact ⟨i, bufs[i], by simp [hlen ▸ hib], hbufs i hib, by simp⟩
  have hnew : ∀ p ∈ oldIDs.zip (bufs.map newTenantID),
      p.2 ∉ (oldIDs.zip (bufs.map newTenantID)).map (·.1) := by
    intro p hp hold
    obtain ⟨i, buf, -, hbuf, hp₂⟩ := hdrawn p hp
    rw [hfst, hmem, mem_plaintext, hp₂, isOpaque_newTenantID (m.bytes i buf hbuf)] at hold
    cases hold.2
  refine ⟨_, rfl, fun id hid => renameAll_of_notMem (by rwa [hfst, hmem]), fun id hid => ?_⟩
  exact hdrawn _ (renameAll_mem hnew (by rwa [hfst, hmem]))

theorem movedIDs_moved (f : String → String) (db : Database) :
    (db.moved f).movedIDs = db.movedIDs.map f := by
  simp [movedIDs, moved, Function.comp_def]

/-- A migration that succeeds leaves no other ids in its tables. -/
theorem migrate_opaqueIDs {m : Migration} {db db' : Database} {report : OpaqueTenantReport}
    (h : db.migrateOpaqueTenants m = (db', .ok report)) {id : String} (hid : id ∈ db'.movedIDs) :
    isOpaqueTenantID id = true := by
  obtain ⟨f, rfl, hkeeps, hdrawn⟩ := migrate_moved h
  rw [movedIDs_moved] at hid
  obtain ⟨old, hold, rfl⟩ := List.mem_map.1 hid
  by_cases hp : old ∈ db.plaintextTenantIDs
  · obtain ⟨i, buf, -, hbuf, hnew⟩ := hdrawn old hp
    rw [hnew]
    exact isOpaque_newTenantID (m.bytes i buf hbuf)
  · rw [hkeeps old hp]
    by_contra hopaque
    exact hp (mem_plaintext.2 ⟨hold, by simpa using hopaque⟩)

theorem migrate_error {m : Migration} {db db' : Database} {e : CredentialError}
    (h : db.migrateOpaqueTenants m = (db', .error e)) : db' = db := by
  unfold migrateOpaqueTenants at h
  split_ifs at h
  · exact (congrArg Prod.fst h).symm
  split at h
  · exact (congrArg Prod.fst h).symm
  · exact (Table.transact_error h).1

end Database

/-- The new ids differ from each other and from all that stand in the database. -/
structure Migration.Fresh (m : Migration) (db : Database) : Prop where
  distinct : ∀ i j buf buf', m.random i = .ok buf → m.random j = .ok buf' →
    newTenantID buf = newTenantID buf' → i = j
  fresh : ∀ i buf, m.random i = .ok buf → newTenantID buf ∉ db.movedIDs ++ db.leftIDs

namespace Database

/-- `f` gives the old ids new ones, all different, and keeps every other id. -/
structure Remaps (f : String → String) (db : Database) : Prop where
  keeps : ∀ id, id ∉ db.plaintextTenantIDs → f id = id
  moves : ∀ id ∈ db.plaintextTenantIDs, f id ∉ db.movedIDs ++ db.leftIDs
  inj : ∀ id ∈ db.plaintextTenantIDs, ∀ id' ∈ db.plaintextTenantIDs, f id = f id' → id = id'

theorem migrate_remaps {m : Migration} {db db' : Database} {report : OpaqueTenantReport}
    (h : db.migrateOpaqueTenants m = (db', .ok report)) (hf : m.Fresh db) :
    ∃ f, db.Remaps f ∧ db' = db.moved f := by
  obtain ⟨f, rfl, hkeeps, hdrawn⟩ := migrate_moved h
  refine ⟨f, ⟨hkeeps, ?_, ?_⟩, rfl⟩
  · intro id hid
    obtain ⟨i, buf, -, hbuf, hnew⟩ := hdrawn id hid
    rw [hnew]
    exact hf.fresh i buf hbuf
  · intro id hid id' hid' heq
    obtain ⟨i, buf, hi, hbuf, hnew⟩ := hdrawn id hid
    obtain ⟨j, buf', hj, hbuf', hnew'⟩ := hdrawn id' hid'
    obtain rfl := hf.distinct i j buf buf' hbuf hbuf' (by rw [← hnew, ← hnew', heq])
    rw [hi] at hj
    exact Option.some.inj hj

/-- The database afterwards is the one before with its tenant ids renamed: no two of them to one,
and the opaque ones to themselves. -/
def RenamedTo (db db' : Database) : Prop :=
  ∃ f : String → String, Set.InjOn f {id | id ∈ db.movedIDs ++ db.leftIDs}
    ∧ (∀ id, isOpaqueTenantID id = true → f id = id) ∧ db' = db.renamed f

theorem map_eq_self {α : Type*} {l : List α} {f : α → α} :
    l.map f = l ↔ ∀ a ∈ l, f a = a := by
  conv_lhs => rhs; rw [← List.map_id l]
  exact List.map_inj_left

theorem map_tenants_eq {α : Type*} (l : List α) (tenant : α → String)
    (put : String → α → α) (hput : ∀ t a, tenant (put t a) = t) (f g : String → String) :
    l.map (fun a => put (f (tenant a)) a) = l.map (fun a => put (g (tenant a)) a)
      ↔ ∀ id ∈ l.map tenant, f id = g id := by
  rw [List.map_inj_left, List.forall_mem_map]
  refine forall₂_congr fun a _ => ⟨fun h => ?_, fun h => by rw [h]⟩
  rw [← hput (f (tenant a)) a, h, hput]

/-- Renaming everything is renaming the migrated tables when the other ids are kept. -/
theorem moved_eq_renamed {f g : String → String} {db : Database} :
    db.moved f = db.renamed g ↔ (∀ id ∈ db.movedIDs, f id = g id) ∧ ∀ id ∈ db.leftIDs, g id = id := by
  have hself : ∀ {α : Type} (l : List α) (tenant : α → String) (put : String → α → α),
      (∀ t a, tenant (put t a) = t) → (∀ a, put (tenant a) a = a) →
      (l = l.map (fun a => put (g (tenant a)) a) ↔ ∀ id ∈ l.map tenant, g id = id) := by
    intro α l tenant put hput hself
    rw [eq_comm, map_eq_self, List.forall_mem_map]
    refine forall₂_congr fun a _ => ⟨fun h => ?_, fun h => by rw [h, hself]⟩
    rw [← hput (g (tenant a)) a, h]
  have hkeys := map_tenants_eq db.credentials.apiKeys (·.tenantID)
    (fun t k => { k with tenantID := t }) (fun _ _ => rfl) f g
  have hmetrics := map_tenants_eq db.hub.metrics (·.row.tenantID)
    (fun t r => { r with row.tenantID := t }) (fun _ _ => rfl) f g
  have hprocesses := map_tenants_eq db.hub.processes (·.row.tenantID)
    (fun t r => { r with row.tenantID := t }) (fun _ _ => rfl) f g
  have hreceipts := hself db.hub.receipts (·.tenantID) (fun t r => { r with tenantID := t })
    (fun _ _ => rfl) (fun _ => rfl)
  have hbudgets := hself db.hub.budgets (·.tenantID) (fun t b => { b with tenantID := t })
    (fun _ _ => rfl) (fun _ => rfl)
  have hhandshakes := hself db.credentials.handshakes (·.tenantID)
    (fun t h => { h with tenantID := t }) (fun _ _ => rfl) (fun _ => rfl)
  have haudit := hself db.audit (·.row.tenantID) (fun t r => { r with row.tenantID := t })
    (fun _ _ => rfl) (fun _ => rfl)
  simp only [moved, renamed, Database.mk.injEq, HubDB.mk.injEq, CredentialDB.mk.injEq, and_true,
    hkeys, hmetrics, hprocesses, hreceipts, hbudgets, hhandshakes, haudit, movedIDs, leftIDs,
    List.forall_mem_append]
  constructor
  · rintro ⟨⟨hr, hb, hm, hp⟩, ⟨hk, hh⟩, ha⟩
    exact ⟨⟨⟨hk, hm⟩, hp⟩, ⟨⟨hr, hb⟩, hh⟩, ha⟩
  · rintro ⟨⟨⟨hk, hm⟩, hp⟩, ⟨⟨hr, hb⟩, hh⟩, ha⟩
    exact ⟨⟨hr, hb, hm, hp⟩, ⟨hk, hh⟩, ha⟩

theorem renamedTo_iff {db : Database} {f : String → String} (hf : db.Remaps f) :
    db.RenamedTo (db.moved f) ↔ ∀ id ∈ db.plaintextTenantIDs, id ∉ db.leftIDs := by
  constructor
  · rintro ⟨g, -, hopaque, hg⟩ id hid hleft
    obtain ⟨hmoved, hkept⟩ := moved_eq_renamed.1 hg
    have hfid : f id = id := (hmoved id (mem_plaintext.1 hid).1).trans (hkept id hleft)
    refine hf.moves id hid ?_
    rw [hfid]
    exact List.mem_append_left _ (mem_plaintext.1 hid).1
  · intro h
    refine ⟨f, ?_, fun id hid => hf.keeps id fun hp => ?_, moved_eq_renamed.2 ⟨fun _ _ => rfl,
      fun id hid => hf.keeps id fun hp => h id hp hid⟩⟩
    · intro id hid id' hid' heq
      by_cases hp : id ∈ db.plaintextTenantIDs
      · by_cases hp' : id' ∈ db.plaintextTenantIDs
        · exact hf.inj id hp id' hp' heq
        · rw [hf.keeps id' hp'] at heq
          exact absurd (heq ▸ hid') (hf.moves id hp)
      · by_cases hp' : id' ∈ db.plaintextTenantIDs
        · rw [hf.keeps id hp] at heq
          exact absurd (heq ▸ hid) (hf.moves id' hp')
        · rwa [hf.keeps id hp, hf.keeps id' hp'] at heq
    · rw [(mem_plaintext.1 hp).2] at hid
      cases hid

end Database

/-! ## Replays -/

variable {K : EventCodec} {tenant agent : String} {policy : IngestPolicy} {now : ℤ} {db : HubDB}
  {batch batch' : IngestBatch}

/-- What the Hub knows has receipts of the tenant. -/
theorem receipt_of_known (h : Known K tenant agent batch policy now db) :
    ∃ r ∈ db.receipts, r.tenantID = tenant := by
  obtain ⟨outs, hok, hdup⟩ := h
  rcases acceptIngest_cases K tenant agent batch policy now db with
    ⟨⟨err, he⟩, -⟩ | ⟨batch', tx, os, hn, -, ha, he⟩
  · rw [hok] at he
    cases he
  rw [hok] at he
  cases he
  obtain ⟨-, hes, -⟩ := normalizeIngest_ok hn
  rcases hb : batch.events with _ | ⟨e, es⟩
  · unfold normalizeIngest at hn
    rw [if_pos (by simp [hb])] at hn
    cases hn
  rw [hb] at hes
  simp only [normalizeEvents] at hes
  obtain ⟨e', -, hes⟩ := Table.ok_of_bind hes
  obtain ⟨es', -, hes⟩ := Table.ok_of_bind hes
  rw [← Except.ok.inj hes] at ha
  obtain ⟨tx, o, os', ho, -, rfl⟩ := acceptEvents_cons K ha
  obtain ⟨body, -, ⟨-, -, hhash⟩ | ⟨rfl, -⟩⟩ := acceptEvent_cases K ho
  · obtain ⟨r, hr, hkey⟩ := selectContentHash_some hhash
    exact ⟨r, hr, congrArg Prod.fst hkey⟩
  · have := hdup _ List.mem_cons_self
    cases this

/-- The tenant of a credential after the tables were renamed. -/
theorem resolve_moved {f : String → String} {db : Database} {io io' : Driver} {hash : String}
    {t t' : ℤ} {rec rec' : APIKeyRecord}
    (h : db.credentials.resolveAPIKey io hash t = .ok rec)
    (h' : (db.moved f).credentials.resolveAPIKey io' hash t' = .ok rec') :
    rec'.tenantID = f rec.tenantID := by
  obtain ⟨k, hk, -, rfl⟩ := resolveAPIKey_lookup h
  obtain ⟨k', hk', -, rfl⟩ := resolveAPIKey_lookup h'
  have hmap : Table.lookup (·.keyHash) hash (db.moved f).credentials.apiKeys
      = (Table.lookup (·.keyHash) hash db.credentials.apiKeys).map
        fun k => { k with tenantID := f k.tenantID } := List.find?_map
  rw [hmap, hk] at hk'
  cases hk'
  rfl

/-- A migration that succeeds renames the database just when none of the old ids stands in a table
that it leaves out. Replayed with the same credential, events accepted before it are known as
duplicates just when the tenant of the credential is none of the old ids. -/
theorem migration_renames_iff (K : EventCodec) (m : Migration) (db db' : Database)
    (report : OpaqueTenantReport) (h : db.migrateOpaqueTenants m = (db', .ok report))
    (hf : m.Fresh db) :
    (db.RenamedTo db' ↔ ∀ id ∈ db.plaintextTenantIDs, id ∉ db.leftIDs)
      ∧ ∀ (io io' : Driver) (hash : String) (t t' : ℤ) (rec rec' : APIKeyRecord),
        db.credentials.resolveAPIKey io hash t = .ok rec →
        db'.credentials.resolveAPIKey io' hash t' = .ok rec' →
        ∀ (agent : String) (batch batch' : IngestBatch) (policy : IngestPolicy) (now : ℤ),
          normalizeIngest batch rec.tenantID agent now = .ok batch' → policy.validate = .ok () →
          AcceptedBefore K rec.tenantID agent batch'.events db.hub →
          (Known K rec'.tenantID agent batch policy now db'.hub
            ↔ rec.tenantID ∉ db.plaintextTenantIDs) := by
  obtain ⟨f, hremaps, rfl⟩ := Database.migrate_remaps h hf
  refine ⟨Database.renamedTo_iff hremaps, ?_⟩
  intro io io' hash t t' rec rec' hrec hrec' agent batch batch' policy now hn hv haccepted
  rw [resolve_moved hrec hrec']
  constructor
  · intro hknown hp
    obtain ⟨r, hr, htr⟩ := receipt_of_known hknown
    refine hremaps.moves _ hp (List.mem_append_right _ ?_)
    rw [← htr]
    simp only [Database.leftIDs, List.mem_append]
    exact .inl (.inl (.inl (List.mem_map_of_mem hr)))
  · intro hp
    rw [hremaps.keeps _ hp]
    exact known_of_accepted hn hv haccepted

/-! ## The standalone server -/

namespace Database

/-- Some row of the tables that are read belongs to the tenant of the standalone server. -/
def HasLocal (db : Database) : Prop :=
  localTenantID ∈ db.hub.metrics.map (·.row.tenantID) ++ db.hub.processes.map (·.row.tenantID)

theorem not_hasLocal {m : Migration} {db db' : Database} {report : OpaqueTenantReport}
    (h : db.migrateOpaqueTenants m = (db', .ok report)) : ¬ db'.HasLocal := by
  intro hlocal
  have hmem : localTenantID ∈ db'.movedIDs := by
    unfold movedIDs
    rw [List.append_assoc]
    exact List.mem_append_right _ hlocal
  exact absurd (migrate_opaqueIDs h hmem) (by decide)

theorem take_boundedLimit_eq_nil {α : Type*} {l : List α} {limit : ℤ} :
    l.take (boundedLimit limit) = [] ↔ l = [] := by
  have hpos : boundedLimit limit ≠ 0 := by
    unfold boundedLimit defaultQueryLimit
    split_ifs <;> omega
  rw [List.take_eq_nil_iff, or_iff_right hpos]

theorem queryMetrics_eq_nil_iff {db : HubDB} {since : ℤ} {tenant : String}
    (ht : requireTenant tenant = true) : db.queryMetrics since tenant = .ok []
      ↔ ∀ r ∈ db.metrics, unix since ≤ r.row.timestamp → r.row.tenantID ≠ tenant := by
  unfold HubDB.queryMetrics HubDB.queryMetricsQ HubDB.selectMetrics Columns.select
  rw [if_pos ht, Except.ok.injEq, List.map_eq_nil_iff, take_boundedLimit_eq_nil,
    List.eq_nil_iff_forall_not_mem]
  simp only [Columns.mem_ordered, Columns.meets_since, not_and]
  rfl

theorem queryProcesses_eq_nil_iff {db : HubDB} {scan : ScanOrder ProcessRecord} {since : ℤ}
    {tenant : String} (ht : requireTenant tenant = true) :
    db.queryProcesses scan since tenant = .ok []
      ↔ ∀ r ∈ db.processes, unix since ≤ r.row.timestamp → r.row.tenantID ≠ tenant := by
  unfold HubDB.queryProcesses
  rw [if_pos ht, Except.ok.injEq, List.map_eq_nil_iff, take_boundedLimit_eq_nil,
    List.eq_nil_iff_forall_not_mem]
  simp only [List.mem_insertionSort, List.mem_filter, (scan.perm _).mem_iff, Columns.meets_since,
    not_and]
  rfl

/-- The reads of the tenant of the standalone server are empty just when it has no rows. -/
theorem local_reads_nil_iff (scan : ScanOrder ProcessRecord) (db : Database) :
    (∀ since, db.hub.queryMetrics since localTenantID = .ok []
        ∧ db.hub.queryProcesses scan since localTenantID = .ok []) ↔ ¬ db.HasLocal := by
  have ht : requireTenant localTenantID = true := by decide
  have hunix : ∀ t : ℤ, unix (t * second) = t := fun t =>
    Int.mul_ediv_cancel t (by decide : second ≠ 0)
  simp only [queryMetrics_eq_nil_iff ht, queryProcesses_eq_nil_iff ht, HasLocal, List.mem_append,
    List.mem_map, not_or, not_exists, not_and]
  constructor
  · intro h
    exact ⟨fun r hr => (h (r.row.timestamp * second)).1 r hr (hunix _).le,
      fun r hr => (h (r.row.timestamp * second)).2 r hr (hunix _).le⟩
  · rintro ⟨hm, hp⟩ since
    exact ⟨fun r hr _ => hm r hr, fun r hr _ => hp r hr⟩

/-- The standalone server reads after a migration what it read before just when the migration fails
or there was nothing to read. -/
theorem local_reads_iff (m : Migration) (scan : ScanOrder ProcessRecord) (db : Database) :
    (∀ since, (db.migrateOpaqueTenants m).1.hub.queryMetrics since localTenantID
          = db.hub.queryMetrics since localTenantID
        ∧ (db.migrateOpaqueTenants m).1.hub.queryProcesses scan since localTenantID
          = db.hub.queryProcesses scan since localTenantID)
      ↔ (∃ e, (db.migrateOpaqueTenants m).2 = .error e) ∨ ¬ db.HasLocal := by
  rcases h : db.migrateOpaqueTenants m with ⟨db', e | report⟩
  · obtain rfl := migrate_error h
    simp
  · have hafter := (local_reads_nil_iff scan db').2 (not_hasLocal h)
    rw [← local_reads_nil_iff scan db]
    constructor
    · intro hsame
      refine .inr fun since => ?_
      rw [← (hsame since).1, ← (hsame since).2]
      exact hafter since
    · rintro (⟨e, he⟩ | hnone) since
      · cases he
      · exact ⟨(hafter since).1.trans (hnone since).1.symm,
          (hafter since).2.trans (hnone since).2.symm⟩

end Database

/-! ## A sample -/

/-- A migration that draws the byte sixteen times for its one new id. -/
def sampleMigration (byte : UInt8) : Migration where
  backupDir := "/backup"
  backup := .ok "/backup/wmonitor-pre-opaque-tenant-20260101T000000Z.db"
  random n := if n = 0 then .ok (List.replicate 16 byte) else .error "rand"
  order := id
  io _ := none
  bytes n buf h := by
    split_ifs at h
    cases h
    rfl
  perm _ := .refl _

def sampleTenant : String := newTenantID (List.replicate 16 7)

/-- The JSON text of the sample event once normalised for the tenant. -/
def sampleTextOf (tenant : String) : String :=
    "\x7b\"event_id\":\"event-1\",\"boot_id\":\"boot-1\",\"sequence\":1," ++
    "\"metric\":\x7b\"ID\":0,\"Timestamp\":\"2026-01-01T00:00:00Z\"," ++
    "\"TenantID\":\"" ++ tenant ++ "\",\"ServerID\":\"agent-a\",\"Hostname\":\"\"," ++
    "\"CPUPct\":20,\"MemPct\":30,\"DiskFreeGB\":0,\"NetSentBytes\":0," ++
    "\"NetRecvBytes\":0,\"CPUCores\":0,\"MemTotalGB\":0,\"DiskTotalGB\":0," ++
    "\"DiskReadOps\":0,\"DiskWriteOps\":0,\"DiskIOPS\":0,\"NetMBps\":0," ++
    "\"ConcurrentUsers\":0,\"NetSentExternal\":0,\"NetRecvExternal\":0," ++
    "\"NetSentInternal\":0,\"NetRecvInternal\":0\x7d\x7d"

/-- The real texts and digests of the sample event for `tenant-a` and for `sampleTenant`. -/
def tenantCodec : EventCodec where
  marshal e := .ok (sampleTextOf ((e.metric.map (·.tenantID)).getD "")).toUTF8.data.toList
  sha256 body :=
    if body = sampleText.toUTF8.data.toList then sampleCodec.sha256 body
    else
      [142, 112, 196, 102, 64, 176, 202, 197, 80, 224, 164, 106, 18, 106, 20, 79, 9, 59, 181, 73, 238,
        219, 61, 5, 193, 208, 217, 151, 198, 80, 119, 39]

/-- An agent credential of the tenant for `agent-a`. -/
def sampleKey (id : ℕ) (hash tenant : String) : APIKey where
  id := id
  keyHash := hash
  tenantID := tenant
  clientName := tenant
  kind := kindAgent
  scope := scopeIngest
  keyPrefix := ""
  expiresAt := 0
  maxUses := 0
  uses := 0
  serverID := "agent-a"
  issuedBy := ""
  createdAt := 1767225600
  lastSeenAt := 0
  revokedAt := 0

def sampleBatch : IngestBatch := ⟨ingestSchema, [sampleEvent]⟩

/-- The sample accepted for the tenant, with its credential and maybe others. -/
def sampleDatabase (tenant : String) (others : List APIKey) : Database :=
  { Database.empty with
    hub := (HubDB.empty.acceptIngest tenantCodec tenant "agent-a" sampleBatch defaultIngestPolicy
      sampleMetric.timestamp).1
    credentials.apiKeys := sampleKey 1 "token-1" tenant :: others }

/-- The outcomes when the sample is sent again a second later. -/
def sampleReplayed (tenant : String) (db : Database) : HubDB × Option (List IngestOutcome) :=
  let (hub, r) := db.hub.acceptIngest tenantCodec tenant "agent-a" sampleBatch defaultIngestPolicy
    (sampleMetric.timestamp + second)
  (hub, r.toOption)

/-- The tenant of the credential. -/
def sampleTenantOf (db : Database) : Option String :=
  (db.credentials.resolveAPIKey (fun _ => none) "token-1" 1767225601).toOption.map (·.tenantID)

/-- The sample of an opaque tenant, beside a credential of `acme`. -/
def opaqueDatabase : Database :=
  sampleDatabase sampleTenant [sampleKey 2 "token-2" "acme"]

theorem fresh_sampleMigration : (sampleMigration 9).Fresh opaqueDatabase where
  distinct i j buf buf' hi hj _ := by
    simp only [sampleMigration] at hi hj
    split_ifs at hi hj
    omega
  fresh i buf hi := by
    simp only [sampleMigration] at hi
    split_ifs at hi
    cases hi
    decide +kernel

theorem migration_renames_iff_sample :
    opaqueDatabase.RenamedTo (opaqueDatabase.migrateOpaqueTenants (sampleMigration 9)).1
      ∧ Known tenantCodec sampleTenant "agent-a" sampleBatch defaultIngestPolicy
          (sampleMetric.timestamp + second)
          (opaqueDatabase.migrateOpaqueTenants (sampleMigration 9)).1.hub := by
  have hok : (opaqueDatabase.migrateOpaqueTenants (sampleMigration 9)).2
      = .ok ⟨"/backup/wmonitor-pre-opaque-tenant-20260101T000000Z.db", 1, 0, 0⟩ := by
    decide +kernel
  have hpair : ∀ x : Database × Except CredentialError OpaqueTenantReport, ∀ r, x.2 = .ok r →
      x = (x.1, .ok r) := by
    rintro ⟨db, r'⟩ r rfl
    rfl
  obtain ⟨hrenamed, hreplay⟩ := migration_renames_iff tenantCodec (sampleMigration 9)
    opaqueDatabase _ _ (hpair _ _ hok) fresh_sampleMigration
  have hkey : ∀ db : Database, db.credentials.apiKeys.head? = some (sampleKey 1 "token-1" sampleTenant) →
      db.credentials.resolveAPIKey (fun _ => none) "token-1" 1767225601
        = .ok (scanAPIKey (sampleKey 1 "token-1" sampleTenant)) := by
    intro db hdb
    rcases hk : db.credentials.apiKeys with _ | ⟨k, ks⟩ <;> rw [hk] at hdb <;> cases hdb
    simp only [CredentialDB.resolveAPIKey, hk]
    rfl
  refine ⟨hrenamed.2 (by decide +kernel), ?_⟩
  refine (hreplay _ _ _ _ _ _ _ (hkey _ (by decide +kernel))
    (hkey _ (by decide +kernel)) "agent-a" sampleBatch
    ⟨ingestSchema, [{ sampleEvent with
      metric := some { sampleMetric with tenantID := sampleTenant } }]⟩ defaultIngestPolicy
    (sampleMetric.timestamp + second) (by decide +kernel) (by decide +kernel) ?_).2 (by decide +kernel)
  intro e he
  obtain rfl := List.mem_singleton.1 he
  exact ⟨_, rfl, by decide +kernel⟩

/-- After the migration the event of `tenant-a` is accepted a second time for its credential. -/
theorem migration_forgets_receipts :
    ((sampleDatabase "tenant-a" []).migrateOpaqueTenants (sampleMigration 7)).2.toBool = true
      ∧ sampleTenantOf (sampleDatabase "tenant-a" []) = some "tenant-a"
      ∧ sampleTenantOf ((sampleDatabase "tenant-a" []).migrateOpaqueTenants (sampleMigration 7)).1
        = some sampleTenant
      ∧ (sampleReplayed "tenant-a" (sampleDatabase "tenant-a" [])).2
        = some [⟨"event-1", .duplicate⟩]
      ∧ (sampleReplayed sampleTenant
          ((sampleDatabase "tenant-a" []).migrateOpaqueTenants (sampleMigration 7)).1).2
        = some [⟨"event-1", .accepted⟩]
      ∧ (sampleReplayed sampleTenant
          ((sampleDatabase "tenant-a" []).migrateOpaqueTenants (sampleMigration 7)).1).1.metrics.length
        = 2 := by
  decide +kernel

/-- A row that was written without a tenant. -/
def localDatabase : Database :=
  { Database.empty with
    hub := HubDB.empty.insertMetric (metricRecord (normalizeInsertTenant "") "agent-a" sampleMetric) }

/-- After the migration the standalone server does not find the row that it found before. -/
theorem migration_hides_local :
    (localDatabase.migrateOpaqueTenants (sampleMigration 7)).2.toBool = true
      ∧ ((localDatabase.hub.queryMetrics 0 localTenantID).toOption.map List.length) = some 1
      ∧ ((localDatabase.migrateOpaqueTenants (sampleMigration 7)).1.hub.queryMetrics 0
        localTenantID).toOption = some [] := by
  decide +kernel

end WMonitor
