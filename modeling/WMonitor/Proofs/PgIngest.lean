import WMonitor.PgIngest
import WMonitor.Proofs.Ingest
import WMonitor.Proofs.Transactions

/-!
# Ingestion on Postgres takes effect call by call

Alone, the transaction of `AcceptIngest` does what `HubDB.acceptIngest` says (`alone_tx`). Beside others it
is undisturbed: the receipts and the charges it has made are locked until it ends, and what it has only read,
a receipt that exists or a budget row that exists, stays there (`undisturbed_tx`). So every interleaving of
the statements of any calls is, for the tables and for the callers, a sequence of whole calls.
-/

namespace WMonitor

theorem Receipt.clash_comm (r r' : Receipt) : r.clash r' = r'.clash r := by
  unfold Receipt.clash
  simp only [eq_comm]

namespace PgIngest

open Tx

/-! ## Alone -/

section Alone

theorem alone_insertReceipt (r : Receipt) (k : ℕ → IngestTx) (db : HubDB) :
    (insertReceipt r k).alone IngestTables.apply db.tables
      = match db.insertReceipt r with
        | none => (k 0).alone IngestTables.apply db.tables
        | some db' => (k 1).alone IngestTables.apply db'.tables := by
  simp only [insertReceipt, alone, IngestTables.hasReceipt, HubDB.insertReceipt, Table.insert]
  by_cases hr : db.receipts.any r.clash = true
  · simp [HubDB.tables, hr, view]
  · simp [HubDB.tables, hr, view, IngestTables.apply]

theorem alone_selectContentHash (tenant agent eventID : String) (k : Option String → IngestTx)
    (db : HubDB) :
    (selectContentHash tenant agent eventID k).alone IngestTables.apply db.tables
      = (k (db.selectContentHash tenant agent eventID)).alone IngestTables.apply db.tables :=
  rfl

theorem hasBudget_tables (db : HubDB) (tenant actor : String) (day : ℤ) :
    (db.tables.hasBudget (tenant, actor, day) = true ∧ db.ensureBudget tenant actor day = db)
      ∨ (db.tables.hasBudget (tenant, actor, day) = false
        ∧ db.ensureBudget tenant actor day
          = { db with budgets := db.budgets ++ [⟨tenant, actor, day, 0, 0⟩] }) := by
  rcases HubDB.ensureBudget_cases db tenant actor day with ⟨⟨b, hb, hk⟩, he⟩ | ⟨hno, he⟩
  · refine .inl ⟨?_, he⟩
    simp only [IngestTables.hasBudget, HubDB.tables, List.any_eq_true, decide_eq_true_eq]
    exact ⟨b, hb, hk⟩
  · refine .inr ⟨?_, he⟩
    simp only [IngestTables.hasBudget, HubDB.tables, List.any_eq_false, decide_eq_true_eq]
    exact hno

theorem alone_insertBudget (tenant actor : String) (day : ℤ) (k : IngestTx) (db : HubDB) :
    (insertBudget tenant actor day k).alone IngestTables.apply db.tables
      = k.alone IngestTables.apply (db.ensureBudget tenant actor day).tables := by
  simp only [insertBudget, alone]
  rcases hasBudget_tables db tenant actor day with ⟨hb, he⟩ | ⟨hb, he⟩
  · rw [hb, he]
    rfl
  · rw [hb, he]
    rfl

theorem alone_chargeBudget (tenant actor : String) (day rows bytes : ℤ) (size : ℕ) (k : IngestTx)
    (db : HubDB) :
    (chargeBudget tenant actor day rows bytes size k).alone IngestTables.apply db.tables
      = match db.chargeBudget tenant actor day rows bytes size with
        | none => .error .acceptedBudget
        | some db' => k.alone IngestTables.apply db'.tables := by
  rw [chargeBudget, alone_insertBudget, HubDB.chargeBudget, updateBudget, alone]
  generalize db.ensureBudget tenant actor day = e
  have hcount : e.tables.budgets = e.budgets := rfl
  simp only [hcount]
  generalize hn : e.budgets.countP (HubDB.fits tenant actor day rows bytes size) = n
  by_cases h1 : n = 1
  · subst h1
    rfl
  · simp only [ne_eq, h1, not_false_eq_true, if_true]
    rfl

theorem alone_insertRow (tenant agent : String) (event : IngestEvent) (k : IngestTx) (db : HubDB) :
    (insertRow tenant agent event k).alone IngestTables.apply db.tables
      = match WMonitor.insertRow tenant agent event db with
        | .error err => .error err
        | .ok db' => k.alone IngestTables.apply db'.tables := by
  unfold insertRow WMonitor.insertRow
  rcases event.metric with _ | m
  · rcases event.process with _ | p
    · rfl
    · simp [alone, view, IngestTables.apply, HubDB.insertProcess, HubDB.tables]
  · simp [alone, view, IngestTables.apply, HubDB.insertMetric, HubDB.tables]

variable (K : EventCodec)

theorem alone_acceptIngest (tenant agent : String) (policy : IngestPolicy) (now : ℤ)
    (events : List IngestEvent) (out : List IngestOutcome) (db : HubDB) :
    (acceptIngest K tenant agent policy now events out).alone IngestTables.apply db.tables
      = match acceptEvents K tenant agent policy now events db with
        | .error err => .error err
        | .ok (db', os) => .ok (db'.tables, out ++ os) := by
  induction events generalizing out db with
  | nil => simp [acceptIngest, acceptEvents, alone]
  | cons e es ih =>
    rw [acceptIngest, acceptEvents, acceptEvent]
    rcases K.marshal e with text | body
    · rfl
    dsimp only
    rw [alone_insertReceipt]
    rcases db.insertReceipt (receiptOf K tenant agent now e body) with _ | db₁
    · dsimp only
      rw [if_pos rfl, alone_selectContentHash]
      by_cases hh : db.selectContentHash tenant agent e.eventID = some (K.contentHash body)
      · rw [if_pos hh, if_pos hh, ih]
        dsimp only
        rcases acceptEvents K tenant agent policy now es db with err | ⟨db', os⟩
        · rfl
        · simp
      · rw [if_neg hh, if_neg hh]
        rfl
    · dsimp only
      rw [if_neg one_ne_zero, alone_chargeBudget, chargeBudgets]
      rcases db₁.chargeBudget tenant "" (utcDay now) policy.dailyRows policy.dailyBytes
        body.length with _ | db₂
      · rfl
      dsimp only
      rw [alone_chargeBudget]
      rcases db₂.chargeBudget tenant agent (utcDay now) policy.agentDailyRows policy.agentDailyBytes
        body.length with _ | db₃
      · rfl
      dsimp only
      rw [alone_insertRow]
      rcases WMonitor.insertRow tenant agent e db₃ with err | db₄
      · rfl
      dsimp only
      rw [ih]
      rcases acceptEvents K tenant agent policy now es db₄ with err | ⟨db', os⟩
      · rfl
      · simp

/-- Alone, a call does what `HubDB.acceptIngest` says. -/
theorem alone_tx (c : AcceptCall) (db : HubDB) :
    Table.transact ((c.tx K).alone IngestTables.apply) db.tables
      = ((db.acceptIngest K c.tenant c.agent c.batch c.policy c.now).1.tables,
        (db.acceptIngest K c.tenant c.agent c.batch c.policy c.now).2) := by
  unfold AcceptCall.tx HubDB.acceptIngest
  rcases normalizeIngest c.batch c.tenant c.agent c.now with err | batch
  · rfl
  dsimp only
  rcases c.policy.validate with err | u
  · rfl
  simp only [Table.transact, alone_acceptIngest, WMonitor.acceptIngest]
  rcases acceptEvents K c.tenant c.agent c.policy c.now batch.events db with err | ⟨db', os⟩
  · rfl
  · rfl

theorem oneByOne_tables (db : HubDB) (calls : List AcceptCall) :
    TxPool.oneByOne IngestTables.apply (AcceptCall.tx K) db.tables calls
      = ((oneByOne K db calls).1.tables, (oneByOne K db calls).2) := by
  induction calls generalizing db with
  | nil => rfl
  | cons c calls ih =>
    simp only [TxPool.oneByOne, alone_tx, oneByOne]
    rw [ih]

end Alone

/-! ## Beside others -/

/-- Neither is a lock on what the other changes. -/
structure Compatible (c c' : IngestChange) : Prop where
  receipts : ∀ r r', c = .receipt r → c' = .receipt r' → r.clash r' = false
  budgets : ∀ k, c.budgetKey = some k → c'.budgetKey ≠ some k

theorem Compatible.symm {c c' : IngestChange} (h : Compatible c c') : Compatible c' c where
  receipts r r' hr hr' := by
    rw [Receipt.clash_comm]
    exact h.receipts r' r hr' hr
  budgets k hk hk' := h.budgets k hk' hk

/-- Changes of the data tables are compatible with all. -/
theorem compatible_data {c c' : IngestChange} (hr : ∀ r, c ≠ .receipt r) (hb : c.budgetKey = none) :
    Compatible c c' :=
  ⟨fun r _ h _ => absurd h (hr r), fun k hk => by rw [hb] at hk; cases hk⟩

section Views

variable (t : IngestTables) (changes : List IngestChange)

/-- The receipt that a change inserts. -/
def insertedReceipt : IngestChange → Option Receipt
  | .receipt r => some r
  | _ => none

theorem receipts_apply (c : IngestChange) :
    (t.apply c).receipts = t.receipts ++ (insertedReceipt c).toList := by
  cases c <;> simp [IngestTables.apply, insertedReceipt]

theorem receipts_view :
    (view IngestTables.apply t changes).receipts
      = t.receipts ++ changes.filterMap insertedReceipt := by
  induction changes generalizing t with
  | nil => simp [view]
  | cons c changes ih =>
    rw [view, List.foldl_cons]
    refine (ih (t.apply c)).trans ?_
    rw [receipts_apply, List.append_assoc, List.filterMap_cons]
    cases insertedReceipt c <;> rfl

/-- The budget row that a change inserts. -/
def insertedBudget : IngestChange → Option (String × String × ℤ)
  | .budget tenant actor day => some (tenant, actor, day)
  | _ => none

theorem keys_apply (c : IngestChange) :
    (t.apply c).budgets.map Budget.key = t.budgets.map Budget.key ++ (insertedBudget c).toList := by
  cases c with
  | budget tenant actor day => simp [IngestTables.apply, insertedBudget, Budget.key]
  | charge tenant actor day rows bytes size =>
    simp only [IngestTables.apply, insertedBudget, Option.toList_none, List.append_nil]
    exact Table.map_update (f := Budget.add size) (fun _ _ => rfl) _
  | receipt r => simp [IngestTables.apply, insertedBudget]
  | metric r => simp [IngestTables.apply, insertedBudget]
  | process r => simp [IngestTables.apply, insertedBudget]

theorem keys_view :
    (view IngestTables.apply t changes).budgets.map Budget.key
      = t.budgets.map Budget.key ++ changes.filterMap insertedBudget := by
  induction changes generalizing t with
  | nil => simp [view]
  | cons c changes ih =>
    rw [view, List.foldl_cons]
    refine (ih (t.apply c)).trans ?_
    rw [keys_apply, List.append_assoc, List.filterMap_cons]
    cases insertedBudget c <;> rfl

theorem hasBudget_iff (k : String × String × ℤ) :
    t.hasBudget k = true ↔ k ∈ t.budgets.map Budget.key := by
  simp only [IngestTables.hasBudget, List.any_eq_true, decide_eq_true_eq, List.mem_map]

/-- The rows of a budget after a change of another row. -/
theorem rows_apply_other {c : IngestChange} {k : String × String × ℤ} (h : c.budgetKey ≠ some k) :
    (t.apply c).budgets.filter (fun b => b.key = k) = t.budgets.filter fun b => b.key = k := by
  cases c with
  | budget tenant actor day =>
    have hk : (tenant, actor, day) ≠ k := fun hk => h (congrArg some hk)
    simp [IngestTables.apply, Budget.key, hk]
  | charge tenant actor day rows bytes size =>
    refine Table.update_elsewhere (f := Budget.add size) (fun b hb => ?_) (fun _ _ => rfl) _
    rw [(HubDB.fits_key hb).1]
    exact decide_eq_false fun hk => h (congrArg some hk)
  | receipt r => rfl
  | metric r => rfl
  | process r => rfl

/-- What a change makes of the rows of a budget depends on them alone. -/
theorem rows_apply_congr {t t' : IngestTables} {k : String × String × ℤ}
    (h : t.budgets.filter (fun b => b.key = k) = t'.budgets.filter fun b => b.key = k)
    (c : IngestChange) :
    (t.apply c).budgets.filter (fun b => b.key = k)
      = (t'.apply c).budgets.filter fun b => b.key = k := by
  cases c with
  | budget tenant actor day => simp only [IngestTables.apply, List.filter_append, h]
  | charge tenant actor day rows bytes size =>
    let room := HubDB.fits tenant actor day rows bytes size
    have hpart : ∀ rows : List Budget,
        (Table.update room (Budget.add size) rows).filter (fun b => b.key = k)
          = Table.update room (Budget.add size) (rows.filter fun b => b.key = k) := fun rows =>
      Table.update_part (f := Budget.add size) (fun _ _ => rfl) rows
    exact (hpart t.budgets).trans ((congrArg _ h).trans (hpart t'.budgets).symm)
  | receipt r => exact h
  | metric r => exact h
  | process r => exact h

theorem rows_view_congr {t t' : IngestTables} {k : String × String × ℤ}
    (h : t.budgets.filter (fun b => b.key = k) = t'.budgets.filter fun b => b.key = k) :
    (view IngestTables.apply t changes).budgets.filter (fun b => b.key = k)
      = (view IngestTables.apply t' changes).budgets.filter fun b => b.key = k := by
  induction changes generalizing t t' with
  | nil => exact h
  | cons c changes ih => exact ih (rows_apply_congr h c)

end Views

section Isolation

variable {k : IngestTx}

theorem undisturbed_insertReceipt (r : Receipt) {k : ℕ → IngestTx}
    (hk : ∀ n, Undisturbed IngestTables.apply Compatible (k n)) :
    Undisturbed IngestTables.apply Compatible (insertReceipt r k) := by
  refine ⟨fun s changes w _ hwaits v hv => ?_, fun s changes w hw _ => ?_, hk⟩
  · dsimp only at hv hwaits
    split_ifs at hv with hr
    · cases hv
    obtain rfl := List.mem_singleton.1 hv
    refine ⟨fun r₁ r' hr₁ hr' => ?_, fun _ h => by cases h⟩
    subst hr'
    cases hr₁
    simpa [hr] using hwaits
  · dsimp only at hw ⊢
    have hsame : (view IngestTables.apply (s.apply w) changes).hasReceipt r
        = (view IngestTables.apply s changes).hasReceipt r := by
      simp only [IngestTables.hasReceipt, receipts_view, receipts_apply, List.any_append] at hw ⊢
      rcases hold : s.receipts.any r.clash || (changes.filterMap insertedReceipt).any r.clash with _ | _
      · -- The receipt is inserted, so that the change is not a receipt with its key.
        rw [hold, if_neg Bool.false_ne_true] at hw
        have hc := hw (.receipt r) (List.mem_append_right _ (List.mem_singleton_self _))
        have hnew : (insertedReceipt w).toList.any r.clash = false := by
          cases w with
          | receipt r' => simpa [insertedReceipt] using hc.receipts r r' rfl rfl
          | _ => rfl
        rw [hnew, Bool.or_false, hold]
      · rw [Bool.or_right_comm, hold, Bool.true_or]
    rw [hsame]

theorem undisturbed_selectContentHash (tenant agent eventID : String) {k : Option String → IngestTx}
    (hk : ∀ h, Undisturbed IngestTables.apply Compatible (k h)) (hnone : (k none).lost = true) :
    Undisturbed IngestTables.apply Compatible (selectContentHash tenant agent eventID k) := by
  refine ⟨fun s changes w _ _ v hv => (List.not_mem_nil hv).elim, fun s changes w hw hlost => ?_, hk⟩
  dsimp only at hw hlost ⊢
  have hsame : Table.lookup Receipt.key (tenant, agent, eventID)
        (view IngestTables.apply (s.apply w) changes).receipts
      = Table.lookup Receipt.key (tenant, agent, eventID)
        (view IngestTables.apply s changes).receipts := by
    simp only [Table.lookup, receipts_view, receipts_apply, List.find?_append] at hlost ⊢
    rcases hold : s.receipts.find? fun r => r.key = (tenant, agent, eventID) with _ | r₀
    · simp only [hold, Option.none_or] at hlost ⊢
      rcases hown : (changes.filterMap insertedReceipt).find?
          fun r => r.key = (tenant, agent, eventID) with _ | r₁
      · rw [hown, Option.map_none, hnone] at hlost
        cases hlost
      · -- The receipt is the transaction's own, and the change not one with its key.
        obtain ⟨c, hc, hr₁⟩ := List.mem_filterMap.1 (List.mem_of_find?_eq_some hown)
        have hkey : r₁.key = (tenant, agent, eventID) := by simpa using List.find?_some hown
        have hnew : (insertedReceipt w).toList.find? (fun r => r.key = (tenant, agent, eventID))
            = none := by
          cases w with
          | receipt r' =>
            have hclash := (hw c (List.mem_append_left _ hc)).receipts r₁ r' ?_ rfl
            · simp only [Receipt.clash, Bool.or_eq_false_iff, decide_eq_false_iff_not] at hclash
              simpa [insertedReceipt, ← hkey] using Ne.symm hclash.1
            · cases c <;> simp_all [insertedReceipt]
          | _ => rfl
        rw [hnew, Option.none_or, hown]
    · simp only [hold, Option.some_or]
  rw [hsame]

theorem undisturbed_insertBudget (tenant actor : String) (day : ℤ)
    (hk : Undisturbed IngestTables.apply Compatible k) :
    Undisturbed IngestTables.apply Compatible (insertBudget tenant actor day k) := by
  refine ⟨fun s changes w _ hwaits v hv => ?_, fun s changes w hw _ => ?_, fun _ => hk⟩
  · dsimp only at hv hwaits
    split_ifs at hv with hb
    · cases hv
    obtain rfl := List.mem_singleton.1 hv
    refine ⟨fun _ _ h => IngestChange.noConfusion h, fun key hkey => ?_⟩
    cases hkey
    simpa [hb] using hwaits
  · dsimp only at hw ⊢
    have hsame : (view IngestTables.apply (s.apply w) changes).hasBudget (tenant, actor, day)
        = (view IngestTables.apply s changes).hasBudget (tenant, actor, day) := by
      rw [Bool.eq_iff_iff, hasBudget_iff, hasBudget_iff, keys_view, keys_view, keys_apply]
      simp only [List.mem_append]
      refine ⟨fun h => ?_, fun h => ?_⟩
      · rcases h with (h | h) | h
        · exact .inl h
        · by_contra hno
          have hb : (view IngestTables.apply s changes).hasBudget (tenant, actor, day) = false := by
            rw [← Bool.not_eq_true, hasBudget_iff, keys_view, List.mem_append]
            exact hno
          rw [hb, if_neg Bool.false_ne_true] at hw
          have hc := hw (.budget tenant actor day) (List.mem_append_right _ (List.mem_singleton_self _))
          cases w with
          | budget tenant' actor' day' =>
            refine hc.budgets (tenant, actor, day) rfl ?_
            exact congrArg some (List.mem_singleton.1 h).symm
          | _ => simp [insertedBudget] at h
        · exact .inr h
      · rcases h with h | h
        · exact .inl (.inl h)
        · exact .inr h
    rw [hsame]

theorem undisturbed_updateBudget (tenant actor : String) (day rows bytes : ℤ) (size : ℕ)
    {k : ℕ → IngestTx} (hk : ∀ n, Undisturbed IngestTables.apply Compatible (k n))
    (hzero : (k 0).lost = true) :
    Undisturbed IngestTables.apply Compatible (updateBudget tenant actor day rows bytes size k) := by
  refine ⟨fun s changes w _ hwaits v hv => ?_, fun s changes w hw hlost => ?_, hk⟩
  · dsimp only at hv hwaits
    split_ifs at hv with hn
    · cases hv
    obtain rfl := List.mem_singleton.1 hv
    refine ⟨fun _ _ h => IngestChange.noConfusion h, fun key hkey => ?_⟩
    cases hkey
    simpa [hn] using hwaits
  · dsimp only at hw hlost ⊢
    have hn : (view IngestTables.apply s changes).budgets.countP
        (HubDB.fits tenant actor day rows bytes size) ≠ 0 := by
      intro h0
      rw [h0, hzero] at hlost
      cases hlost
    rw [if_neg hn] at hw
    have hc := hw (.charge tenant actor day rows bytes size)
      (List.mem_append_right _ (List.mem_singleton_self _))
    have hpart : ∀ b, HubDB.fits tenant actor day rows bytes size b = true →
        decide (b.key = (tenant, actor, day)) = true := fun b hb =>
      decide_eq_true (HubDB.fits_key hb).1
    have hrows := rows_view_congr changes
      (rows_apply_other s (hc.budgets (tenant, actor, day) rfl))
    have hsame : (view IngestTables.apply (s.apply w) changes).budgets.countP
          (HubDB.fits tenant actor day rows bytes size)
        = (view IngestTables.apply s changes).budgets.countP
          (HubDB.fits tenant actor day rows bytes size) := by
      rw [← Table.countP_part hpart, hrows, Table.countP_part hpart]
    simp only [hsame]

theorem undisturbed_chargeBudget (tenant actor : String) (day rows bytes : ℤ) (size : ℕ)
    (hk : Undisturbed IngestTables.apply Compatible k) :
    Undisturbed IngestTables.apply Compatible (chargeBudget tenant actor day rows bytes size k) := by
  refine undisturbed_insertBudget tenant actor day (undisturbed_updateBudget _ _ _ _ _ _ (fun n => ?_) rfl)
  split_ifs
  · exact trivial
  · exact hk

theorem undisturbed_insertRow (tenant agent : String) (event : IngestEvent)
    (hk : Undisturbed IngestTables.apply Compatible k) :
    Undisturbed IngestTables.apply Compatible (insertRow tenant agent event k) := by
  unfold insertRow
  split
  · refine ⟨fun s changes w _ _ v hv => ?_, fun s changes w _ _ => rfl, fun _ => hk⟩
    obtain rfl := List.mem_singleton.1 hv
    exact compatible_data (fun _ h => by cases h) rfl
  · refine ⟨fun s changes w _ _ v hv => ?_, fun s changes w _ _ => rfl, fun _ => hk⟩
    obtain rfl := List.mem_singleton.1 hv
    exact compatible_data (fun _ h => by cases h) rfl
  · exact trivial

variable (K : EventCodec)

theorem undisturbed_acceptIngest (tenant agent : String) (policy : IngestPolicy) (now : ℤ)
    (events : List IngestEvent) (out : List IngestOutcome) :
    Undisturbed IngestTables.apply Compatible (acceptIngest K tenant agent policy now events out) := by
  induction events generalizing out with
  | nil => exact trivial
  | cons e es ih =>
    rw [acceptIngest]
    rcases K.marshal e with text | body
    · exact trivial
    refine undisturbed_insertReceipt _ fun n => ?_
    split_ifs
    · refine undisturbed_selectContentHash _ _ _ (fun existing => ?_) (by simp [Tx.lost])
      split_ifs
      · exact ih _
      · exact trivial
    · exact undisturbed_chargeBudget _ _ _ _ _ _ <| undisturbed_chargeBudget _ _ _ _ _ _ <|
        undisturbed_insertRow _ _ _ (ih _)

theorem undisturbed_tx (c : AcceptCall) : Undisturbed IngestTables.apply Compatible (c.tx K) := by
  unfold AcceptCall.tx
  rcases normalizeIngest c.batch c.tenant c.agent c.now with err | batch
  · exact trivial
  rcases c.policy.validate with err | u
  · exact trivial
  · exact undisturbed_acceptIngest K _ _ _ _ _ _

end Isolation

/-! ## Any interleaving -/

theorem kept (K : EventCodec) (db : HubDB) (turns : List (TxTurn AcceptCall)) :
    TxPool.Kept IngestTables.apply (AcceptCall.tx K) Compatible db.tables (after K db turns) :=
  TxPool.kept (fun _ _ h => h.symm) (undisturbed_tx K) db.tables turns

/-- However the statements of the calls are interleaved, and whichever of them are broken off, the tables
and the answers are those of whole calls, one after the other in some order. Each call that was answered
is in that order once, with its answer, and before every call made after the answer. -/
theorem acceptIngest_serializable (K : EventCodec) (db : HubDB)
    (turns more : List (TxTurn AcceptCall)) :
    let p := after K db turns
    let serial := oneByOne K db (p.order.map (·.2.1))
    p.committed = serial.1.tables ∧ p.order.map (·.2.2) = serial.2 ∧ (p.order.map (·.1)).Nodup
      ∧ (∀ id call r, (id, call, r) ∈ p.order → (TxTurn.calls turns)[id]? = some call)
      ∧ ∀ id call r, (id, call, some r) ∈ p.answers →
        (id, call, r) ∈ p.order
        ∧ ∀ id' call' r', (id', call', r') ∈ (after K db (turns ++ more)).order →
          (TxTurn.calls turns).length ≤ id' →
          ∃ earlier later, (after K db (turns ++ more)).order = earlier ++ (id, call, r) :: later
            ∧ (id', call', r') ∈ later := by
  intro p serial
  have hk := kept K db turns
  have hn : TxPool.Numbered (TxTurn.calls turns) p := TxPool.numbered db.tables turns
  have hserial := hk.serial
  rw [oneByOne_tables, Prod.mk.injEq] at hserial
  refine ⟨hserial.1.symm, hserial.2.symm, hk.orderNodup, fun id call r h => hn.order _ h,
    fun id call r hanswer => ?_⟩
  have hin : (id, call, r) ∈ p.order := hk.answered _ hanswer r rfl
  refine ⟨hin, fun id' call' r' hx hnew => ?_⟩
  -- What is in the order already has a smaller number, so that the new call is in what is added.
  have hprefix : p.order <+: (after K db (turns ++ more)).order := TxPool.order_after db.tables turns more
  obtain ⟨added, hadded⟩ := hprefix
  obtain ⟨earlier, rest, hsplit⟩ := List.append_of_mem hin
  refine ⟨earlier, rest ++ added, ?_, ?_⟩
  · rw [← hadded, hsplit, List.append_assoc, List.cons_append]
  · rw [← hadded] at hx
    rcases List.mem_append.1 hx with hx | hx
    · have hlt := hk.orderIds _ hx
      rw [hn.next] at hlt
      exact absurd hlt (Nat.not_lt.2 hnew)
    · exact List.mem_append_right _ hx

end PgIngest

end WMonitor
