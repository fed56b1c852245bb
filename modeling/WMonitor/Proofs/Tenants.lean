import WMonitor.Proofs.Ingest
import WMonitor.Store

/-!
# Tenants do not interfere

Two runs of the store are compared: one with the calls of every tenant, and one with those of
tenant `t` alone. In both the tables hold the same receipts, budgets and rows of `t`, except that
the ids of its rows differ, since the ids of a table are given out to all tenants in turn. The
second run's ids are turned into the first's by an increasing renaming, which each insert extends.
-/

namespace WMonitor

/-! ## Tables whose ids differ -/

def Stored.rename {α : Type} (ρ : ℕ → ℕ) (r : Stored α) : Stored α := { r with id := ρ r.id }

/-- A renaming of ids that keeps their order. -/
structure Increasing (ρ : ℕ → ℕ) : Prop where
  zero : ρ 0 = 0
  mono : StrictMono ρ

/-- A table and the last id it gave out. -/
abbrev Numbering (α : Type) := List (Stored α) × ℕ

/-- The row under the next id. -/
def Numbering.insert {α : Type} (x : α) (t : Numbering α) : Numbering α :=
  (t.1 ++ [⟨t.2 + 1, x⟩], t.2 + 1)

/-- The rows of `own` in `full` are those in `alone`, renamed. -/
structure Matched {α : Type} (ρ : ℕ → ℕ) (own : α → Bool) (full alone : Numbering α) : Prop where
  increasing : Increasing ρ
  rows : full.1.filter (own ·.row) = (alone.1.filter (own ·.row)).map (Stored.rename ρ)
  bound : ∀ r ∈ alone.1, r.id ≤ alone.2
  last : ρ alone.2 ≤ full.2

/-- From `n` ids given out to `n'`: the renaming changed at most on the new ones. -/
structure Grown (ρ ρ' : ℕ → ℕ) (n n' : ℕ) : Prop where
  agree : ∀ i ≤ n, ρ' i = ρ i
  le : n ≤ n'

theorem Grown.refl (ρ : ℕ → ℕ) (n : ℕ) : Grown ρ ρ n n := ⟨fun _ _ => rfl, le_rfl⟩

theorem Grown.trans {ρ ρ' ρ'' : ℕ → ℕ} {n n' n'' : ℕ} (h : Grown ρ ρ' n n')
    (h' : Grown ρ' ρ'' n' n'') : Grown ρ ρ'' n n'' :=
  ⟨fun i hi => (h'.agree i (hi.trans h.le)).trans (h.agree i hi), h.le.trans h'.le⟩

namespace Matched

variable {α : Type} {ρ ρ' : ℕ → ℕ} {own : α → Bool} {full full' alone : Numbering α} {x : α}

theorem refl {t : Numbering α} (h : ∀ r ∈ t.1, r.id ≤ t.2) : Matched id own t t where
  increasing := ⟨rfl, strictMono_id⟩
  rows := (List.map_id _).symm
  bound := h
  last := le_rfl

theorem congr {n : ℕ} (h : Matched ρ own full alone) (hρ : Increasing ρ')
    (hg : Grown ρ ρ' alone.2 n) : Matched ρ' own full alone where
  increasing := hρ
  rows := by
    rw [h.rows]
    refine List.map_congr_left fun r hr => ?_
    simp only [Stored.rename, hg.agree _ (h.bound r (List.mem_filter.1 hr).1)]
  bound := h.bound
  last := by
    rw [hg.agree _ le_rfl]
    exact h.last

theorem elsewhere (h : Matched ρ own full alone)
    (hr : full'.1.filter (own ·.row) = full.1.filter (own ·.row)) (hl : full.2 ≤ full'.2) :
    Matched ρ own full' alone where
  increasing := h.increasing
  rows := hr.trans h.rows
  bound := h.bound
  last := h.last.trans hl

/-- The renaming up to `n`, and from there on the ids that follow `m`. -/
def extend (ρ : ℕ → ℕ) (n m i : ℕ) : ℕ := if i ≤ n then ρ i else m + (i - n)

theorem extend_increasing (h : Matched ρ own full alone) :
    Increasing (extend ρ alone.2 full.2) where
  zero := by
    unfold extend
    rw [if_pos (Nat.zero_le _), h.increasing.zero]
  mono := by
    intro i j hij
    unfold extend
    have hlast := h.last
    split_ifs with hi hj
    · exact h.increasing.mono hij
    · have := h.increasing.mono.monotone hi
      omega
    · omega
    · omega

theorem extend_grown (ρ : ℕ → ℕ) (n m : ℕ) : Grown ρ (extend ρ n m) n (n + 1) :=
  ⟨fun _ hi => if_pos hi, Nat.le_succ n⟩

theorem insert (h : Matched ρ own full alone) (hx : own x = true) :
    Matched (extend ρ alone.2 full.2) own (full.insert x) (alone.insert x) := by
  have hc := h.congr (extend_increasing h) (extend_grown _ _ _)
  have hnew : extend ρ alone.2 full.2 (alone.2 + 1) = full.2 + 1 := by
    unfold extend
    rw [if_neg (by omega)]
    omega
  refine ⟨hc.increasing, ?_, ?_, ?_⟩
  · simp only [Numbering.insert, List.filter_append, List.map_append, hc.rows]
    simp [hx, Stored.rename, hnew]
  · intro r hr
    simp only [Numbering.insert, List.mem_append, List.mem_singleton] at hr ⊢
    rcases hr with hr | rfl
    · exact (h.bound r hr).trans (Nat.le_succ _)
    · exact le_rfl
  · exact hnew.le

end Matched

/-! ## The ingestion tables -/

/-- The renamings of the ids of the data tables and of the audit log. -/
structure Renaming where
  metrics : ℕ → ℕ
  processes : ℕ → ℕ
  audit : ℕ → ℕ

structure Renaming.Increasing (ρ : Renaming) : Prop where
  metrics : WMonitor.Increasing ρ.metrics
  processes : WMonitor.Increasing ρ.processes
  audit : WMonitor.Increasing ρ.audit

section Hub

variable (t : String)

def HubDB.metricTable (db : HubDB) : Numbering MetricRecord := (db.metrics, db.lastMetricID)

def HubDB.processTable (db : HubDB) : Numbering ProcessRecord := (db.processes, db.lastProcessID)

def ownReceipt (r : Receipt) : Bool := r.tenantID = t

def ownBudget (b : Budget) : Bool := b.tenantID = t

def ownMetric (r : MetricRecord) : Bool := r.tenantID = t

def ownProcess (r : ProcessRecord) : Bool := r.tenantID = t

/-- The ingestion tables agree on tenant `t`. -/
structure HubAlike (ρ : Renaming) (full alone : HubDB) : Prop where
  receipts : full.receipts.filter (ownReceipt t) = alone.receipts.filter (ownReceipt t)
  budgets : full.budgets.filter (ownBudget t) = alone.budgets.filter (ownBudget t)
  metrics : Matched ρ.metrics (ownMetric t) full.metricTable alone.metricTable
  processes : Matched ρ.processes (ownProcess t) full.processTable alone.processTable

/-- The renaming is as before on the ids given out before. -/
structure HubGrown (ρ ρ' : Renaming) (alone alone' : HubDB) : Prop where
  metrics : Grown ρ.metrics ρ'.metrics alone.lastMetricID alone'.lastMetricID
  processes : Grown ρ.processes ρ'.processes alone.lastProcessID alone'.lastProcessID
  audit : ρ'.audit = ρ.audit

/-- Nothing of tenant `t` changed. -/
structure Elsewhere (db db' : HubDB) : Prop where
  receipts : db'.receipts.filter (ownReceipt t) = db.receipts.filter (ownReceipt t)
  budgets : db'.budgets.filter (ownBudget t) = db.budgets.filter (ownBudget t)
  metrics : db'.metrics.filter (ownMetric t ·.row) = db.metrics.filter (ownMetric t ·.row)
  processes : db'.processes.filter (ownProcess t ·.row) = db.processes.filter (ownProcess t ·.row)
  lastMetric : db.lastMetricID ≤ db'.lastMetricID
  lastProcess : db.lastProcessID ≤ db'.lastProcessID

variable {t}

theorem Elsewhere.refl (db : HubDB) : Elsewhere t db db :=
  ⟨rfl, rfl, rfl, rfl, le_rfl, le_rfl⟩

theorem Elsewhere.trans {db db' db'' : HubDB} (h : Elsewhere t db db') (h' : Elsewhere t db' db'') :
    Elsewhere t db db'' :=
  ⟨h'.receipts.trans h.receipts, h'.budgets.trans h.budgets, h'.metrics.trans h.metrics,
    h'.processes.trans h.processes, h.lastMetric.trans h'.lastMetric,
    h.lastProcess.trans h'.lastProcess⟩

variable {ρ ρ' : Renaming} {full full' alone alone' : HubDB}

theorem HubAlike.elsewhere (h : HubAlike t ρ full alone) (he : Elsewhere t full full') :
    HubAlike t ρ full' alone :=
  ⟨he.receipts.trans h.receipts, he.budgets.trans h.budgets,
    h.metrics.elsewhere he.metrics he.lastMetric,
    h.processes.elsewhere he.processes he.lastProcess⟩

theorem HubGrown.refl (ρ : Renaming) (alone : HubDB) : HubGrown ρ ρ alone alone :=
  ⟨.refl _ _, .refl _ _, rfl⟩

theorem HubGrown.trans {ρ'' : Renaming} {alone'' : HubDB} (h : HubGrown ρ ρ' alone alone')
    (h' : HubGrown ρ' ρ'' alone' alone'') : HubGrown ρ ρ'' alone alone'' :=
  ⟨h.metrics.trans h'.metrics, h.processes.trans h'.processes, h'.audit.trans h.audit⟩

theorem ownReceipt_of_clash {r x : Receipt} (hr : r.tenantID = t) (h : r.clash x = true) :
    ownReceipt t x = true := by
  simp only [Receipt.clash, Receipt.key, Bool.or_eq_true, Bool.and_eq_true, decide_eq_true_eq,
    Prod.mk.injEq] at h
  rcases h with ⟨h, -⟩ | ⟨⟨⟨h, -⟩, -⟩, -⟩ <;> simp [ownReceipt, ← h, hr]

theorem insertReceipt_part {r : Receipt} (hr : r.tenantID = t) (db : HubDB) :
    (db.insertReceipt r).map (fun db' => db'.receipts.filter (ownReceipt t))
      = Table.insert Receipt.clash r (db.receipts.filter (ownReceipt t)) := by
  rw [← Table.insert_part (fun x hx => ownReceipt_of_clash hr hx) (by simp [ownReceipt, hr])]
  simp [HubDB.insertReceipt, Option.map_map, Function.comp_def]

/-- The receipt goes in to both, or into neither. -/
theorem HubAlike.insertReceipt {r : Receipt} (h : HubAlike t ρ full alone) (hr : r.tenantID = t) :
    (full.insertReceipt r = none ∧ alone.insertReceipt r = none)
    ∨ ∃ f a, full.insertReceipt r = some f ∧ alone.insertReceipt r = some a
      ∧ HubAlike t ρ f a ∧ HubGrown ρ ρ alone a := by
  have hf := insertReceipt_part hr full
  have ha := insertReceipt_part hr alone
  rw [h.receipts, ← ha] at hf
  rcases hi : full.insertReceipt r with _ | f <;> rcases hj : alone.insertReceipt r with _ | a <;>
    rw [hi, hj] at hf
  · exact .inl ⟨rfl, rfl⟩
  · cases hf
  · cases hf
  · simp only [Option.map_some, Option.some.injEq] at hf
    obtain ⟨rfl, -⟩ := HubDB.insertReceipt_some hi
    obtain ⟨rfl, -⟩ := HubDB.insertReceipt_some hj
    exact .inr ⟨_, _, rfl, rfl, ⟨hf, h.budgets, h.metrics, h.processes⟩,
      ⟨.refl _ _, .refl _ _, rfl⟩⟩

section Budget

variable {tenant actor : String} {day rows bytes : ℤ} {size : ℕ}

/-- `HubDB.ensureBudget` on the budget rows alone. -/
def ensured (tenant actor : String) (day : ℤ) (bs : List Budget) : List Budget :=
  (Table.insert (fun b b' : Budget => b.key = b'.key) ⟨tenant, actor, day, 0, 0⟩ bs).getD bs

/-- `HubDB.chargeBudget` on the budget rows alone. -/
def charged (tenant actor : String) (day rows bytes : ℤ) (size : ℕ) (bs : List Budget) :
    Option (List Budget) :=
  let room := HubDB.fits tenant actor day rows bytes size
  if (ensured tenant actor day bs).countP room ≠ 1 then none
  else some (Table.update room (·.add size) (ensured tenant actor day bs))

theorem ensureBudget_eq (db : HubDB) :
    db.ensureBudget tenant actor day
      = { db with budgets := ensured tenant actor day db.budgets } := by
  unfold HubDB.ensureBudget ensured
  split
  · rename_i bs hbs
    rw [hbs]
    rfl
  · rename_i hbs
    rw [hbs]
    rfl

theorem chargeBudget_eq (db : HubDB) :
    db.chargeBudget tenant actor day rows bytes size
      = (charged tenant actor day rows bytes size db.budgets).map
          fun bs => { db with budgets := bs } := by
  unfold HubDB.chargeBudget charged
  rw [ensureBudget_eq]
  dsimp only
  split_ifs <;> rfl

theorem ensured_part (bs : List Budget) :
    (ensured t actor day bs).filter (ownBudget t)
      = ensured t actor day (bs.filter (ownBudget t)) := by
  unfold ensured
  rw [← @Table.insert_part _ (ownBudget t)]
  · rcases Table.insert _ _ bs <;> rfl
  · intro x hx
    simp only [Budget.key, decide_eq_true_eq, Prod.mk.injEq] at hx
    simp [ownBudget, hx.1]
  · simp [ownBudget]

theorem fits_tenant {b : Budget} (h : HubDB.fits tenant actor day rows bytes size b = true) :
    b.tenantID = tenant :=
  congrArg Prod.fst (HubDB.fits_key h).1

theorem ownBudget_add (b : Budget) : ownBudget t (b.add size) = ownBudget t b := rfl

theorem charged_part (t actor : String) (day rows bytes : ℤ) (size : ℕ) (bs : List Budget) :
    (charged t actor day rows bytes size bs).map (List.filter (ownBudget t))
      = charged t actor day rows bytes size (bs.filter (ownBudget t)) := by
  have hown : ∀ b, HubDB.fits t actor day rows bytes size b = true → ownBudget t b = true :=
    fun b hb => by simp [ownBudget, fits_tenant hb]
  unfold charged
  dsimp only
  rw [← ensured_part, Table.countP_part hown]
  split_ifs
  · rfl
  · rw [Option.map_some, Table.update_part fun b _ => ownBudget_add b]

theorem charged_elsewhere {bs bs' : List Budget} (ht : tenant ≠ t)
    (h : charged tenant actor day rows bytes size bs = some bs') :
    bs'.filter (ownBudget t) = bs.filter (ownBudget t) := by
  unfold charged at h
  dsimp only at h
  split_ifs at h
  cases h
  rw [Table.update_elsewhere (fun b hb => by simp [ownBudget, fits_tenant hb, ht])
    (fun b _ => ownBudget_add b)]
  unfold ensured Table.insert
  split_ifs
  · rfl
  · simp [ownBudget, ht]

/-- The charge is made to both, or to neither. -/
theorem HubAlike.chargeBudget (h : HubAlike t ρ full alone) (actor : String)
    (day rows bytes : ℤ) (size : ℕ) :
    (full.chargeBudget t actor day rows bytes size = none
      ∧ alone.chargeBudget t actor day rows bytes size = none)
    ∨ ∃ f a, full.chargeBudget t actor day rows bytes size = some f
      ∧ alone.chargeBudget t actor day rows bytes size = some a ∧ HubAlike t ρ f a
      ∧ HubGrown ρ ρ alone a := by
  have hf := charged_part t actor day rows bytes size full.budgets
  rw [h.budgets, ← charged_part] at hf
  rw [chargeBudget_eq, chargeBudget_eq]
  rcases hi : charged t actor day rows bytes size full.budgets with _ | f <;>
    rcases hj : charged t actor day rows bytes size alone.budgets with _ | a <;>
    rw [hi, hj] at hf
  · exact .inl ⟨rfl, rfl⟩
  · cases hf
  · cases hf
  · simp only [Option.map_some, Option.some.injEq] at hf
    exact .inr ⟨_, _, rfl, rfl, ⟨h.receipts, hf, h.metrics, h.processes⟩,
      ⟨.refl _ _, .refl _ _, rfl⟩⟩

end Budget

/-- Both computations fail with the same error, or both succeed with related results. -/
def Agree {ε α β : Type} (R : α → β → Prop) : Except ε α → Except ε β → Prop
  | .ok a, .ok b => R a b
  | .error e, .error e' => e = e'
  | _, _ => False

theorem Agree.cases {ε α β : Type} {R : α → β → Prop} {x : Except ε α} {y : Except ε β}
    (h : Agree R x y) :
    (∃ e, x = .error e ∧ y = .error e) ∨ ∃ a b, x = .ok a ∧ y = .ok b ∧ R a b := by
  rcases x with e | a <;> rcases y with e' | b
  · exact .inl ⟨e, rfl, by rw [show e = e' from h]⟩
  · exact h.elim
  · exact h.elim
  · exact .inr ⟨a, b, rfl, rfl, h⟩

/-- Both tables are alike again, under a renaming that goes on from `ρ`. -/
def Onward (t : String) (ρ : Renaming) (alone f a : HubDB) : Prop :=
  ∃ ρ', HubAlike t ρ' f a ∧ HubGrown ρ ρ' alone a

theorem HubAlike.chargeBudgets (h : HubAlike t ρ full alone) (agent : String)
    (policy : IngestPolicy) (now : ℤ) (size : ℕ) :
    Agree (fun f a => HubAlike t ρ f a ∧ HubGrown ρ ρ alone a)
      (chargeBudgets t agent policy now size full)
      (chargeBudgets t agent policy now size alone) := by
  unfold WMonitor.chargeBudgets
  rcases h.chargeBudget "" (utcDay now) policy.dailyRows policy.dailyBytes size with
    ⟨hf, ha⟩ | ⟨f, a, hf, ha, h₁, g₁⟩ <;> rw [hf, ha]
  · rfl
  dsimp only
  rcases h₁.chargeBudget agent (utcDay now) policy.agentDailyRows policy.agentDailyBytes size with
    ⟨hf, ha⟩ | ⟨f, a, hf, ha, h₂, g₂⟩ <;> rw [hf, ha]
  · rfl
  · exact ⟨h₂, g₁.trans g₂⟩

theorem HubAlike.insertRow (h : HubAlike t ρ full alone) (agent : String) (e : IngestEvent) :
    Agree (Onward t ρ alone) (insertRow t agent e full) (insertRow t agent e alone) := by
  unfold WMonitor.insertRow
  split
  · refine ⟨{ ρ with metrics := Matched.extend ρ.metrics alone.lastMetricID full.lastMetricID },
      ⟨h.receipts, h.budgets, h.metrics.insert (by simp [ownMetric, metricRecord]),
        h.processes⟩, ⟨Matched.extend_grown _ _ _, .refl _ _, rfl⟩⟩
  · refine ⟨{ ρ with
        processes := Matched.extend ρ.processes alone.lastProcessID full.lastProcessID },
      ⟨h.receipts, h.budgets, h.metrics, h.processes.insert (by simp [ownProcess, processRecord])⟩,
      ⟨.refl _ _, Matched.extend_grown _ _ _, rfl⟩⟩
  · rfl

theorem HubAlike.selectContentHash (h : HubAlike t ρ full alone) (agent eventID : String) :
    full.selectContentHash t agent eventID = alone.selectContentHash t agent eventID := by
  have hown : ∀ r : Receipt, r.key = (t, agent, eventID) → ownReceipt t r = true := by
    intro r hr
    simp only [Receipt.key, Prod.mk.injEq] at hr
    simp [ownReceipt, hr.1]
  unfold HubDB.selectContentHash
  rw [← Table.lookup_part hown full.receipts, h.receipts, Table.lookup_part hown]

variable (K : EventCodec)

theorem HubAlike.acceptEvent (h : HubAlike t ρ full alone) (agent : String)
    (policy : IngestPolicy) (now : ℤ) (e : IngestEvent) :
    Agree (fun f a => f.2 = a.2 ∧ Onward t ρ alone f.1 a.1)
      (acceptEvent K t agent policy now e full) (acceptEvent K t agent policy now e alone) := by
  unfold WMonitor.acceptEvent
  rcases K.marshal e with err | body
  · rfl
  dsimp only
  rcases h.insertReceipt (r := receiptOf K t agent now e body) rfl with
    ⟨hf, ha⟩ | ⟨f, a, hf, ha, h₁, g₁⟩ <;> rw [hf, ha]
  · dsimp only
    rw [h.selectContentHash]
    split_ifs
    · exact ⟨rfl, ρ, h, .refl _ _⟩
    · rfl
  · dsimp only
    obtain ⟨err, hf, ha⟩ | ⟨f', a', hf, ha, h₂, g₂⟩ :=
      (h₁.chargeBudgets agent policy now body.length).cases <;> rw [hf, ha]
    · rfl
    dsimp only
    obtain ⟨err, hf, ha⟩ | ⟨f'', a'', hf, ha, ρ', h₃, g₃⟩ :=
      (h₂.insertRow agent e).cases <;> rw [hf, ha]
    · rfl
    · exact ⟨rfl, ρ', h₃, (g₁.trans g₂).trans g₃⟩

theorem HubAlike.acceptEvents (agent : String) (policy : IngestPolicy) (now : ℤ) :
    ∀ (es : List IngestEvent) {ρ : Renaming} {full alone : HubDB}, HubAlike t ρ full alone →
      Agree (fun f a => f.2 = a.2 ∧ Onward t ρ alone f.1 a.1)
        (acceptEvents K t agent policy now es full) (acceptEvents K t agent policy now es alone)
  | [], ρ, full, alone, h => ⟨rfl, ρ, h, .refl _ _⟩
  | e :: es, ρ, full, alone, h => by
    unfold WMonitor.acceptEvents
    obtain ⟨err, hf, ha⟩ | ⟨⟨f, o⟩, ⟨a, o'⟩, hf, ha, rfl, ρ₁, h₁, g₁⟩ :=
      (h.acceptEvent K agent policy now e).cases <;>
      rw [hf, ha]
    · rfl
    dsimp only
    obtain ⟨err, hf, ha⟩ | ⟨⟨f', os⟩, ⟨a', os'⟩, hf, ha, rfl, ρ₂, h₂, g₂⟩ :=
      (HubAlike.acceptEvents agent policy now es h₁).cases <;> rw [hf, ha]
    · rfl
    · exact ⟨rfl, ρ₂, h₂, g₁.trans g₂⟩

/-- A call of `t` returns the same in both runs, and the tables stay alike. -/
theorem HubAlike.acceptIngest (h : HubAlike t ρ full alone) (agent : String) (batch : IngestBatch)
    (policy : IngestPolicy) (now : ℤ) :
    (full.acceptIngest K t agent batch policy now).2
        = (alone.acceptIngest K t agent batch policy now).2
      ∧ Onward t ρ alone (full.acceptIngest K t agent batch policy now).1
          (alone.acceptIngest K t agent batch policy now).1 := by
  unfold HubDB.acceptIngest
  rcases normalizeIngest batch t agent now with err | batch'
  · exact ⟨rfl, ρ, h, .refl _ _⟩
  rcases policy.validate with err | u
  · exact ⟨rfl, ρ, h, .refl _ _⟩
  unfold WMonitor.acceptIngest Table.transact
  dsimp only
  obtain ⟨err, hf, ha⟩ | ⟨⟨f, os⟩, ⟨a, os'⟩, hf, ha, rfl, hon⟩ :=
    (HubAlike.acceptEvents K agent policy now batch'.events h).cases <;> rw [hf, ha]
  · exact ⟨rfl, ρ, h, .refl _ _⟩
  · exact ⟨rfl, hon⟩

/-! ### Calls of the other tenants -/

variable {tenant agent : String} {policy : IngestPolicy} {now : ℤ} {db db' : HubDB}

theorem chargeBudget_elsewhere {actor : String} {day rows bytes : ℤ} {size : ℕ} (ht : tenant ≠ t)
    (h : db.chargeBudget tenant actor day rows bytes size = some db') : Elsewhere t db db' := by
  rw [chargeBudget_eq] at h
  obtain ⟨bs, hbs, rfl⟩ := Option.map_eq_some_iff.1 h
  exact ⟨rfl, charged_elsewhere ht hbs, rfl, rfl, le_rfl, le_rfl⟩

theorem chargeBudgets_elsewhere {size : ℕ} (ht : tenant ≠ t)
    (h : chargeBudgets tenant agent policy now size db = .ok db') : Elsewhere t db db' := by
  obtain ⟨mid, hmid, htx⟩ := chargeBudgets_ok h
  exact (chargeBudget_elsewhere ht hmid).trans (chargeBudget_elsewhere ht htx)

theorem insertRow_elsewhere {e : IngestEvent} (ht : tenant ≠ t)
    (h : insertRow tenant agent e db = .ok db') : Elsewhere t db db' := by
  unfold insertRow at h
  split at h
  · cases h
    exact ⟨rfl, rfl, by simp [HubDB.insertMetric, ownMetric, metricRecord, ht], rfl,
      Nat.le_succ _, le_rfl⟩
  · cases h
    exact ⟨rfl, rfl, rfl, by simp [HubDB.insertProcess, ownProcess, processRecord, ht], le_rfl,
      Nat.le_succ _⟩
  · cases h

theorem acceptEvent_elsewhere {e : IngestEvent} {o : IngestOutcome} (ht : tenant ≠ t)
    (h : acceptEvent K tenant agent policy now e db = .ok (db', o)) : Elsewhere t db db' := by
  obtain ⟨body, -, ⟨-, rfl, -, -⟩ | ⟨mid, tx, hmid, htx, htx', -⟩⟩ := acceptEvent_ok K h
  · exact .refl db'
  obtain ⟨rfl, -⟩ := HubDB.insertReceipt_some hmid
  refine (Elsewhere.trans ?_ (chargeBudgets_elsewhere ht htx)).trans (insertRow_elsewhere ht htx')
  exact ⟨by simp [ownReceipt, receiptOf, ht], rfl, rfl, rfl, le_rfl, le_rfl⟩

theorem acceptEvents_elsewhere (ht : tenant ≠ t) :
    ∀ {es : List IngestEvent} {db db' : HubDB} {os : List IngestOutcome},
      acceptEvents K tenant agent policy now es db = .ok (db', os) → Elsewhere t db db'
  | [], db, db', os, h => by
    cases h
    exact .refl db
  | e :: es, db, db', os, h => by
    obtain ⟨tx, o, os', h₁, h₂, -⟩ := acceptEvents_cons K h
    exact (acceptEvent_elsewhere K ht h₁).trans (acceptEvents_elsewhere ht h₂)

theorem acceptIngest_elsewhere {batch : IngestBatch} (ht : tenant ≠ t) (db : HubDB) :
    Elsewhere t db (db.acceptIngest K tenant agent batch policy now).1 := by
  rcases acceptIngest_cases K tenant agent batch policy now db with
    ⟨-, he⟩ | ⟨batch', tx', os, -, -, ha, he⟩
  · rw [he]
    exact .refl db
  · rw [he]
    exact acceptEvents_elsewhere K ht ha

end Hub

/-! ## Reads -/

section Reads

variable {α : Type} {C : Columns α} {t : String} {ρ : ℕ → ℕ} {q q' : MetricQuery}
  {full alone : Numbering α}

/-- The two queries are the same, and their cursors cut the ids in the same place. -/
structure MetricQuery.SameCut (ρ : ℕ → ℕ) (q q' : MetricQuery) : Prop where
  rest : { q with afterID := 0 } = { q' with afterID := 0 }
  cursor : 0 < q.afterID ↔ 0 < q'.afterID
  cut : ∀ id : ℕ, q.afterID < ρ id ↔ q'.afterID < id

theorem MetricQuery.SameCut.meets (h : q.SameCut ρ q') (all : Bool) (r : Stored α) :
    C.meets q all (r.rename ρ) = C.meets q' all r := by
  have hc : q.afterID ≤ 0 ↔ q'.afterID ≤ 0 := by rw [← not_lt, ← not_lt, h.cursor]
  obtain ⟨hs, hu, ht, hv, -, ha, -⟩ := MetricQuery.mk.inj h.rest
  rw [Bool.eq_iff_iff]
  simp only [Columns.meets, Columns.passed, Stored.rename, Bool.and_eq_true, Bool.or_eq_true,
    decide_eq_true_eq, hc, h.cut, hs, hu, ht, hv, ha]

theorem Columns.meets_own {r : Stored α} (h : C.meets q false r = true) :
    C.tenantID r.row = q.tenantID := by
  simp only [Columns.meets, Bool.and_eq_true, Bool.false_or, decide_eq_true_eq] at h
  exact h.1.1.2

theorem Columns.before_rename (hρ : StrictMono ρ) (a b : Stored α) :
    C.Before a b ↔ C.Before (a.rename ρ) (b.rename ρ) := by
  simp only [Columns.Before, Stored.rename, hρ.le_iff_le]

/-- A read returns the same rows, renamed. -/
theorem Matched.select (h : Matched ρ (fun x => C.tenantID x = t) full alone)
    (hq : q.SameCut ρ q') (ht : q.tenantID = t) :
    C.select q false full.1 = (C.select q' false alone.1).map (Stored.rename ρ) := by
  obtain ⟨-, -, ht', -, hlimit, -, -⟩ := MetricQuery.mk.inj hq.rest
  rw [ht] at ht'
  have hown : ∀ (x : Stored α), C.meets q false x = true
      → decide (C.tenantID x.row = t) = true := fun x hx => by simp [← ht, C.meets_own hx]
  have hown' : ∀ (x : Stored α), C.meets q' false x = true
      → decide (C.tenantID x.row = t) = true := fun x hx => by simp [← ht', C.meets_own hx]
  have hfilter : full.1.filter (C.meets q false)
      = (alone.1.filter (C.meets q' false)).map (Stored.rename ρ) := by
    rw [← Table.filter_part hown, h.rows, List.filter_map, ← Table.filter_part hown' alone.1]
    congr 2
    funext r
    exact hq.meets false r
  unfold Columns.select Columns.ordered
  rw [hfilter, hlimit, List.map_take, List.map_insertionSort _ _ _ _ fun a _ b _ =>
    Columns.before_rename h.increasing.mono a b]

theorem audit_before_rename (hρ : StrictMono ρ) (a b : Stored AuditRecord) :
    AuditBefore a b ↔ AuditBefore (a.rename ρ) (b.rename ρ) := by
  simp only [AuditBefore, Stored.rename, hρ.le_iff_le]

end Reads

/-! ## Whole runs -/

section Runs

variable (t : String)

def Database.auditTable (db : Database) : Numbering AuditRecord := (db.audit, db.lastAuditID)

/-- The tables of the two runs agree on tenant `t`. -/
structure Alike (ρ : Renaming) (full alone : Database) : Prop where
  hub : HubAlike t ρ full.hub alone.hub
  audit : Matched ρ.audit (fun r => r.tenantID = t) full.auditTable alone.auditTable

/-- The renaming is as before on the ids given out before. -/
structure DatabaseGrown (ρ ρ' : Renaming) (alone alone' : Database) : Prop where
  metrics : Grown ρ.metrics ρ'.metrics alone.hub.lastMetricID alone'.hub.lastMetricID
  processes : Grown ρ.processes ρ'.processes alone.hub.lastProcessID alone'.hub.lastProcessID
  audit : Grown ρ.audit ρ'.audit alone.lastAuditID alone'.lastAuditID

theorem DatabaseGrown.refl (ρ : Renaming) (alone : Database) : DatabaseGrown ρ ρ alone alone :=
  ⟨.refl _ _, .refl _ _, .refl _ _⟩

theorem DatabaseGrown.trans {ρ ρ' ρ'' : Renaming} {alone alone' alone'' : Database}
    (h : DatabaseGrown ρ ρ' alone alone') (h' : DatabaseGrown ρ' ρ'' alone' alone'') :
    DatabaseGrown ρ ρ'' alone alone'' :=
  ⟨h.metrics.trans h'.metrics, h.processes.trans h'.processes, h.audit.trans h'.audit⟩

variable {t} {ρ ρ' : Renaming} {full alone alone' : Database}

theorem Alike.increasing (h : Alike t ρ full alone) : ρ.Increasing :=
  ⟨h.hub.metrics.increasing, h.hub.processes.increasing, h.audit.increasing⟩

theorem Alike.congr (h : Alike t ρ full alone) (hρ : ρ'.Increasing)
    (hg : DatabaseGrown ρ ρ' alone alone') : Alike t ρ' full alone where
  hub := ⟨h.hub.receipts, h.hub.budgets, h.hub.metrics.congr hρ.metrics hg.metrics,
    h.hub.processes.congr hρ.processes hg.processes⟩
  audit := h.audit.congr hρ.audit hg.audit

/-- The row with its id renamed. -/
def MetricRow.rename (ρ : ℕ → ℕ) (m : MetricRow) : MetricRow := { m with id := ρ m.id.toNat }

def ProcessRow.rename (ρ : ℕ → ℕ) (p : ProcessRow) : ProcessRow := { p with id := ρ p.id.toNat }

/-- The reply with the ids of its rows renamed. -/
def StoreReply.rename (ρ : Renaming) : StoreReply → StoreReply
  | metrics r => metrics (r.map fun rows => rows.map (MetricRow.rename ρ.metrics))
  | processes r => processes (r.map fun rows => rows.map (ProcessRow.rename ρ.processes))
  | r => r

/-- The same call, up to where its cursor cuts the ids. -/
def StoreOp.SameCut (ρ : Renaming) : StoreOp → StoreOp → Prop
  | queryMetricsQ q, op' => ∃ q', op' = queryMetricsQ q' ∧ q.SameCut ρ.metrics q'
  | queryProcessesQ q, op' => ∃ q', op' = queryProcessesQ q' ∧ q.SameCut ρ.processes q'
  | op, op' => op' = op

variable (K : EventCodec)

theorem Alike.queryMetricsQ {q q' : MetricQuery} (h : Alike t ρ full alone)
    (hq : q.SameCut ρ.metrics q') (ht : q.tenantID = t) :
    full.hub.queryMetricsQ q
      = (alone.hub.queryMetricsQ q').map fun rows => rows.map (MetricRow.rename ρ.metrics) := by
  have hs := Matched.select (C := metricColumns) h.hub.metrics hq ht
  have hc := (MetricQuery.mk.inj hq.rest).2.2.1
  unfold HubDB.queryMetricsQ HubDB.selectMetrics
  rw [hc]
  split_ifs
  · simp only [HubDB.metricTable] at hs
    simp only [Except.map, hs, List.map_map, Except.ok.injEq]
    rfl
  · rfl

theorem Alike.queryProcessesQ {q q' : MetricQuery} (h : Alike t ρ full alone)
    (hq : q.SameCut ρ.processes q') (ht : q.tenantID = t) :
    full.hub.queryProcessesQ q
      = (alone.hub.queryProcessesQ q').map
          fun rows => rows.map (ProcessRow.rename ρ.processes) := by
  have hs := Matched.select (C := processColumns) h.hub.processes hq ht
  have hc := (MetricQuery.mk.inj hq.rest).2.2.1
  unfold HubDB.queryProcessesQ
  rw [hc]
  split_ifs
  · simp only [HubDB.processTable] at hs
    simp only [Except.map, hs, List.map_map, Except.ok.injEq]
    rfl
  · rfl

theorem Alike.queryServersPage {limit : ℤ} {after : String} (h : Alike t ρ full alone) :
    full.hub.queryServersPage t limit after = alone.hub.queryServersPage t limit after := by
  have hrows : ∀ db : HubDB, (db.metrics.filter fun r => decide (r.row.tenantID = t)
        && decide (r.row.serverID ≠ "") && (decide (after = "") || decide (after < r.row.serverID)))
      = (db.metrics.filter (ownMetric t ·.row)).filter fun r => decide (r.row.tenantID = t)
        && decide (r.row.serverID ≠ "")
        && (decide (after = "") || decide (after < r.row.serverID)) := fun db => by
    refine (Table.filter_part (fun r hr => ?_) _).symm
    simp only [Bool.and_eq_true] at hr
    exact hr.1.1
  have hm : full.hub.metrics.filter (ownMetric t ·.row)
      = (alone.hub.metrics.filter (ownMetric t ·.row)).map (Stored.rename ρ.metrics) :=
    h.hub.metrics.rows
  unfold HubDB.queryServersPage
  rw [hrows full.hub, hrows alone.hub, hm, List.filter_map]
  dsimp only
  rw [List.map_map]
  rfl

theorem Alike.listAudit {limit : ℤ} (h : Alike t ρ full alone) :
    full.listAudit t limit = alone.listAudit t limit := by
  have hm : full.audit.filter (fun r => decide (r.row.tenantID = t))
      = (alone.audit.filter fun r => decide (r.row.tenantID = t)).map (Stored.rename ρ.audit) :=
    h.audit.rows
  unfold Database.listAudit
  rw [hm, ← List.map_insertionSort _ _ _ _ fun a _ b _ =>
    audit_before_rename h.audit.increasing.mono a b]
  simp only [← List.map_take, List.map_map]
  rfl

theorem Alike.other {op : StoreOp} (h : Alike t ρ full alone) (ht : op.tenant ≠ t) :
    Alike t ρ (op.step K full).1 alone := by
  cases op with
  | acceptIngest tenant agent batch policy now =>
    exact ⟨h.hub.elsewhere (acceptIngest_elsewhere K ht full.hub), h.audit⟩
  | appendAudit e now =>
    simp only [StoreOp.step, Database.appendAudit]
    split
    · exact h
    · refine ⟨h.hub, h.audit.elsewhere ?_ (Nat.le_succ _)⟩
      simp only [StoreOp.tenant] at ht
      simp [Database.auditTable, AuditEvent.record, ht]
  | queryMetricsQ q => exact h
  | queryProcessesQ q => exact h
  | queryServersPage tenant limit after => exact h
  | listAudit tenant limit => exact h

theorem Alike.own {op : StoreOp} (h : Alike t ρ full alone) (ht : op.tenant = t) :
    ∃ ρ', Alike t ρ' (op.step K full).1 (op.step K alone).1
      ∧ DatabaseGrown ρ ρ' alone (op.step K alone).1 := by
  cases op with
  | acceptIngest tenant agent batch policy now =>
    obtain rfl : tenant = t := ht
    obtain ⟨-, ρ', hρ, hg⟩ := h.hub.acceptIngest K agent batch policy now
    refine ⟨ρ', ⟨hρ, ?_⟩, hg.metrics, hg.processes, ?_⟩
    · rw [hg.audit]
      exact h.audit
    · rw [hg.audit]
      exact .refl _ _
  | appendAudit e now =>
    simp only [StoreOp.step, Database.appendAudit]
    split
    · exact ⟨ρ, h, .refl _ _⟩
    · refine ⟨{ ρ with audit := Matched.extend ρ.audit alone.lastAuditID full.lastAuditID },
        ⟨⟨h.hub.receipts, h.hub.budgets, h.hub.metrics, h.hub.processes⟩,
          h.audit.insert (x := e.record now) ?_⟩,
        .refl _ _, .refl _ _, Matched.extend_grown _ _ _⟩
      simp only [StoreOp.tenant] at ht
      simp [AuditEvent.record, ht]
  | queryMetricsQ q => exact ⟨ρ, h, .refl _ _⟩
  | queryProcessesQ q => exact ⟨ρ, h, .refl _ _⟩
  | queryServersPage tenant limit after => exact ⟨ρ, h, .refl _ _⟩
  | listAudit tenant limit => exact ⟨ρ, h, .refl _ _⟩

theorem StoreOp.SameCut.state {op op' : StoreOp} (h : op.SameCut ρ op') (db : Database) :
    (op'.step K db).1 = (op.step K db).1 := by
  cases op with
  | queryMetricsQ q =>
    obtain ⟨q', rfl, -⟩ := h
    rfl
  | queryProcessesQ q =>
    obtain ⟨q', rfl, -⟩ := h
    rfl
  | acceptIngest tenant agent batch policy now => rw [show op' = _ from h]
  | queryServersPage tenant limit after => rw [show op' = _ from h]
  | appendAudit e now => rw [show op' = _ from h]
  | listAudit tenant limit => rw [show op' = _ from h]

theorem StoreOp.SameCut.tenant {op op' : StoreOp} (h : op.SameCut ρ op') :
    op'.tenant = op.tenant := by
  cases op with
  | queryMetricsQ q =>
    obtain ⟨q', rfl, hq⟩ := h
    exact (MetricQuery.mk.inj hq.rest).2.2.1.symm
  | queryProcessesQ q =>
    obtain ⟨q', rfl, hq⟩ := h
    exact (MetricQuery.mk.inj hq.rest).2.2.1.symm
  | acceptIngest tenant agent batch policy now => rw [show op' = _ from h]
  | queryServersPage tenant limit after => rw [show op' = _ from h]
  | appendAudit e now => rw [show op' = _ from h]
  | listAudit tenant limit => rw [show op' = _ from h]

theorem Alike.reply {op op' : StoreOp} (h : Alike t ρ full alone) (ht : op.tenant = t)
    (hc : op.SameCut ρ op') : (op.step K full).2 = (op'.step K alone).2.rename ρ := by
  cases op with
  | queryMetricsQ q =>
    obtain ⟨q', rfl, hq⟩ := hc
    exact congrArg StoreReply.metrics (h.queryMetricsQ hq ht)
  | queryProcessesQ q =>
    obtain ⟨q', rfl, hq⟩ := hc
    exact congrArg StoreReply.processes (h.queryProcessesQ hq ht)
  | acceptIngest tenant agent batch policy now =>
    obtain rfl : tenant = t := ht
    obtain rfl : op' = _ := hc
    exact congrArg StoreReply.ingest (h.hub.acceptIngest K _ _ _ _).1
  | queryServersPage tenant limit after =>
    obtain rfl : tenant = t := ht
    obtain rfl : op' = _ := hc
    exact congrArg StoreReply.servers h.queryServersPage
  | appendAudit e now =>
    obtain rfl : op' = _ := hc
    simp only [StoreOp.step, Database.appendAudit]
    split <;> rfl
  | listAudit tenant limit =>
    obtain rfl : tenant = t := ht
    obtain rfl : op' = _ := hc
    exact congrArg StoreReply.audit h.listAudit

theorem repliesTo_alike : ∀ (ops : List StoreOp) {ρ : Renaming} {full alone : Database},
    Alike t ρ full alone →
      ∃ ρ' alone', ρ'.Increasing ∧ DatabaseGrown ρ ρ' alone alone'
        ∧ ∀ ops', List.Forall₂ (StoreOp.SameCut ρ') (ops.filter (·.tenant = t)) ops' →
          full.repliesTo K t ops = (alone.repliesTo K t ops').map (StoreReply.rename ρ')
  | [], ρ, full, alone, h => by
    refine ⟨ρ, alone, h.increasing, .refl _ _, fun ops' hops => ?_⟩
    obtain rfl := List.forall₂_nil_left_iff.1 hops
    rfl
  | op :: ops, ρ, full, alone, h => by
    by_cases ht : op.tenant = t
    · obtain ⟨ρ₁, h₁, g₁⟩ := h.own K ht
      obtain ⟨ρ₂, alone₂, hρ, g₂, hrest⟩ := repliesTo_alike ops h₁
      refine ⟨ρ₂, alone₂, hρ, g₁.trans g₂, fun ops' hops => ?_⟩
      rw [List.filter_cons_of_pos (by simpa using ht)] at hops
      obtain ⟨op', ops'', hc, hcs, rfl⟩ := List.forall₂_cons_left_iff.1 hops
      have ht' : op'.tenant = t := hc.tenant.trans ht
      simp only [Database.repliesTo, if_pos ht, if_pos ht', List.map_cons, hc.state K]
      rw [hrest _ hcs, (h.congr hρ (g₁.trans g₂)).reply K ht hc]
    · obtain ⟨ρ₂, alone₂, hρ, g₂, hrest⟩ := repliesTo_alike ops (h.other K ht)
      refine ⟨ρ₂, alone₂, hρ, g₂, fun ops' hops => ?_⟩
      rw [List.filter_cons_of_neg (by simpa using ht)] at hops
      simp only [Database.repliesTo, if_neg ht]
      exact hrest ops' hops

/-- The ids in the tables were given out by their counters. -/
structure Database.Numbered (db : Database) : Prop where
  metrics : ∀ r ∈ db.hub.metrics, r.id ≤ db.hub.lastMetricID
  processes : ∀ r ∈ db.hub.processes, r.id ≤ db.hub.lastProcessID
  audit : ∀ r ∈ db.audit, r.id ≤ db.lastAuditID

theorem Alike.refl {db : Database} (h : db.Numbered) : Alike t ⟨id, id, id⟩ db db where
  hub := ⟨rfl, rfl, .refl h.metrics, .refl h.processes⟩
  audit := .refl h.audit

/-- What the reply returns belongs to tenant `t`. -/
def StoreReply.Confined (t : String) (db : Database) : StoreReply → Prop
  | metrics (.ok rows) => ∀ r ∈ rows, r.tenantID = t
  | processes (.ok rows) => ∀ r ∈ rows, r.tenantID = t
  | servers (.ok ids) =>
    ∀ id ∈ ids, ∃ r ∈ db.hub.metrics, r.row.tenantID = t ∧ r.row.serverID = id
  | audit (.ok events) => ∀ e ∈ events, e.tenantID = t
  | _ => True

theorem Columns.select_own {α : Type} {C : Columns α} {q : MetricQuery} {rows : List (Stored α)}
    {r : Stored α} (h : r ∈ C.select q false rows) : C.tenantID r.row = q.tenantID := by
  have hr := List.mem_of_mem_take h
  rw [Columns.ordered, List.mem_insertionSort] at hr
  exact C.meets_own (List.mem_filter.1 hr).2

theorem step_confined (op : StoreOp) (db : Database) : (op.step K db).2.Confined op.tenant db := by
  cases op with
  | acceptIngest tenant agent batch policy now => trivial
  | appendAudit e now => trivial
  | queryMetricsQ q =>
    simp only [StoreOp.step, HubDB.queryMetricsQ, HubDB.selectMetrics]
    split_ifs
    · intro m hm
      obtain ⟨r, hr, rfl⟩ := List.mem_map.1 hm
      exact Columns.select_own (C := metricColumns) hr
    · trivial
  | queryProcessesQ q =>
    simp only [StoreOp.step, HubDB.queryProcessesQ]
    split_ifs
    · intro m hm
      obtain ⟨r, hr, rfl⟩ := List.mem_map.1 hm
      exact Columns.select_own (C := processColumns) hr
    · trivial
  | queryServersPage tenant limit after =>
    simp only [StoreOp.step, HubDB.queryServersPage]
    split_ifs
    · intro id hid
      have hid := List.mem_of_mem_take hid
      rw [List.mem_insertionSort, List.mem_dedup] at hid
      obtain ⟨r, hr, rfl⟩ := List.mem_map.1 hid
      simp only [List.mem_filter, Bool.and_eq_true, decide_eq_true_eq] at hr
      exact ⟨r, hr.1, hr.2.1.1, rfl⟩
    · trivial
  | listAudit tenant limit =>
    simp only [StoreOp.step, Database.listAudit]
    split
    · intro e he
      obtain ⟨r, hr, rfl⟩ := List.mem_map.1 he
      have hr := List.mem_of_mem_take hr
      rw [List.mem_insertionSort] at hr
      exact of_decide_eq_true (List.mem_filter.1 hr).2
    · trivial

end Runs

/-- Two tenants in turn. -/
def sampleOps : List StoreOp :=
  [.appendAudit ⟨0, "tenant-b", "admin", "wm_1", "session.login", "", ""⟩ 0,
    .acceptIngest "tenant-a" "agent-a" ⟨ingestSchema, [sampleEvent]⟩ defaultIngestPolicy
      (1767225600 * second),
    .listAudit "tenant-b" 10,
    .queryMetricsQ ⟨0, zeroTime, "tenant-a", "", 0, 0, 0⟩]

end WMonitor
